import LoadHook.Files.Access
import LoadHook.Proofs.Files.Walk
import LoadHook.Proofs.Lookup
import Mathlib.Data.List.Induction

/-!
# Removed files

A file is removed by cutting its place out of the tree. The way that led to the file then gets lost,
be it at its end or at a link on it that was removed, and the other places hold what they held.
-/
namespace LoadHook.FileTree

variable {t u : FileTree} {place directory q : Place} {node : Node} {front : List Name} {n : Name}
  {p : Path}

/-- Nothing is found at a path, not even a link that leads nowhere. -/
def Vacant (t : FileTree) (p : Path) : Prop :=
  ∀ place node, t.locate p false ≠ .ok (.found place node)

/-- Nothing is found at a path, or it can be removed. -/
def Removable (t : FileTree) (p : Path) : Prop := t.Vacant p ∨ ∃ u, t.removeFile p = .ok u

/-- A path whose last name is neither `.` nor `..`, and that does not end in a separator. -/
def EndsInName (p : Path) : Prop := ∃ front n, namesOf p = front ++ [n] ∧ ¬ IsDots n

/-- Only directories hold anything. -/
def Layered (t : FileTree) : Prop :=
  ∀ place name node, t.node? (place ++ [name]) = some node → ∃ m, t.node? place = some (.dir m)

/-! ## Cutting out a place -/

/-- The other places hold what they held. -/
theorem node?_cut (h : ¬ place <+: q) : (t.cut place).node? q = t.node? q := by
  have hkept : (!place.isPrefixOf q) = true := by
    simpa [Bool.eq_false_iff] using h
  unfold node? cut
  rw [Lookup.lookup_filter (fun d => !place.isPrefixOf d), if_pos hkept]

theorem node?_cut_below (h : place <+: q) (hq : q ≠ []) : (t.cut place).node? q = none := by
  have hcut : ¬ (!place.isPrefixOf q) = true := by
    simpa using h
  unfold node? cut
  rw [if_neg hq, Lookup.lookup_filter (fun d => !place.isPrefixOf d), if_neg hcut]

/-- Below what is no directory there is nothing. -/
theorem Layered.node?_below (ht : t.Layered) (hplace : t.node? place = some node)
    (hnode : ∀ m, node ≠ .dir m) (hq : place <+: q) (hne : q ≠ place) : t.node? q = none := by
  obtain ⟨rest, rfl⟩ := hq
  induction rest using List.reverseRecOn with
  | nil => exact absurd (List.append_nil place) hne
  | append_singleton rest s ih =>
    refine Option.eq_none_iff_forall_ne_some.mpr fun below hbelow => ?_
    rw [← List.append_assoc] at hbelow
    obtain ⟨m, hdir⟩ := ht _ _ _ hbelow
    by_cases hrest : rest = []
    · rw [hrest, List.append_nil, hplace, Option.some.injEq] at hdir
      exact hnode m hdir
    · rw [ih (by simpa using hrest)] at hdir
      cases hdir

/-! ## Walks that end in a name -/

/-- A walk that ends at no node. -/
def Stop.Lost : Stop → Prop
  | .failed _ | .spot (.missing _ _) => True
  | _ => False

/-- Where a walk may end whose last name is `n`, if a link there is not followed: it is lost, or at
the node of a place, or at a link on its way. -/
inductive NameStop (t : FileTree) (n : Name) : Stop → Prop
  | lost {x : Stop} (hx : x.Lost) : NameStop t n x
  | found {q : Place} {node : Node} (hnode : t.node? q = some node) :
    NameStop t n (.spot (.found q node))
  | link (directory : Place) (target : Path) (front : List Name) :
    NameStop t n (.link directory target (front ++ [n]))

theorem nameStop_walkNames (t : FileTree) (directory : Place) (front : List Name)
    (hn : ¬ IsDots n) :
    t.NameStop n (t.walkNames false directory (front ++ [n])) := by
  induction front generalizing directory with
  | nil =>
    rw [List.nil_append]
    by_cases hlong : nameLimit < byteLength n
    · rw [walkNames_long hn hlong]
      exact .lost trivial
    · rw [walkNames_name hn hlong]
      cases hnode : t.node? (directory ++ [n]) with
      | none => exact .lost trivial
      | some node =>
        cases node with
        | file bytes m mode => exact .found hnode
        | link target => exact .found hnode
        | dir m =>
          simp only [walkNames, hnode, Option.getD_some]
          exact .found hnode
  | cons s front ih =>
    rw [List.cons_append]
    by_cases hs : IsDots s
    · rcases hs with rfl | rfl
      · rw [walkNames_here]
        exact ih _
      · rw [walkNames_up]
        exact ih _
    · by_cases hlong : nameLimit < byteLength s
      · rw [walkNames_long hs hlong]
        exact .lost trivial
      · have hrest : (front ++ [n]).isEmpty = false := by simp
        rw [walkNames_name hs hlong]
        simp only [hrest, Bool.false_and, Bool.false_eq_true, if_false]
        cases t.node? (directory ++ [s]) with
        | none => exact .lost trivial
        | some node =>
          cases node with
          | file bytes m mode => exact .lost trivial
          | link target => exact .link directory target front
          | dir m => exact ih _

/-- A walk finds the node of the place where it ends. -/
theorem node?_of_walk {links : Nat} (hn : ¬ IsDots n)
    (hw : t.walk false links directory (front ++ [n]) = .ok (.found place node)) :
    t.node? place = some node := by
  induction links using Nat.strongRecOn generalizing directory front with
  | ind links ih =>
    have hstop := nameStop_walkNames t directory front hn
    rcases walk_eq_ok_iff.mp hw with hspot | ⟨k, d, target, rest, rfl, hlink, hw⟩
    · rw [hspot] at hstop
      cases hstop with
      | lost hx => exact hx.elim
      | found hnode => exact hnode
    · rw [hlink] at hstop
      cases hstop with
      | lost hx => exact hx.elim
      | link _ _ rest =>
        rw [← List.append_assoc] at hw
        exact ih k (Nat.lt_succ_self k) hw

/-! ## Walks in a tree with a place cut out -/

/-- Where a place is cut out, a name leads nowhere, or where it led before. -/
theorem walkNames_cut_name (t : FileTree) (place directory : Place) {s : Name} {names : List Name}
    (hs : ¬ IsDots s)
    (hmore : ¬ place <+: directory ++ [s] →
      ((t.cut place).walkNames false (directory ++ [s]) names).Lost ∨
        (t.cut place).walkNames false (directory ++ [s]) names =
          t.walkNames false (directory ++ [s]) names) :
    ((t.cut place).walkNames false directory (s :: names)).Lost ∨
      (t.cut place).walkNames false directory (s :: names) =
        t.walkNames false directory (s :: names) := by
  by_cases hlong : nameLimit < byteLength s
  · rw [walkNames_long hs hlong]
    exact .inl trivial
  · rw [walkNames_name hs hlong, walkNames_name hs hlong]
    -- at the place and below it nothing is held any more, elsewhere what was held before
    by_cases hplace : place <+: directory ++ [s]
    · rw [node?_cut_below hplace (by simp)]
      cases names <;> exact .inl trivial
    · rw [node?_cut hplace]
      cases t.node? (directory ++ [s]) with
      | none => exact .inr rfl
      | some node =>
        cases node with
        | file bytes m mode => exact .inr rfl
        | link target => exact .inr rfl
        | dir m => exact hmore hplace

/-- Where a place is cut out a walk is lost, or goes as it went before. -/
theorem walkNames_cut (t : FileTree) (place directory : Place) (front : List Name)
    (hn : ¬ IsDots n) :
    ((t.cut place).walkNames false directory (front ++ [n])).Lost ∨
      (t.cut place).walkNames false directory (front ++ [n]) =
        t.walkNames false directory (front ++ [n]) := by
  induction front generalizing directory with
  | nil =>
    refine walkNames_cut_name t place directory hn fun hplace => .inr ?_
    rw [walkNames, walkNames, node?_cut hplace]
  | cons s front ih =>
    rw [List.cons_append]
    by_cases hs : IsDots s
    · rcases hs with rfl | rfl
      · rw [walkNames_here, walkNames_here]
        exact ih directory
      · rw [walkNames_up, walkNames_up]
        exact ih directory.dropLast
    · exact walkNames_cut_name t place directory hs fun _ => ih _

/-- What a walk finds where a place is cut out, it found before. -/
theorem walk_of_walk_cut {links : Nat} (hn : ¬ IsDots n)
    (hw : (t.cut place).walk false links directory (front ++ [n]) = .ok (.found q node)) :
    t.walk false links directory (front ++ [n]) = .ok (.found q node) := by
  induction links using Nat.strongRecOn generalizing directory front with
  | ind links ih =>
    have hstop := nameStop_walkNames t directory front hn
    have hcut := walkNames_cut t place directory front hn
    rcases walk_eq_ok_iff.mp hw with hspot | ⟨k, d, target, rest, rfl, hlink, hw⟩
    · rw [hspot] at hcut
      rcases hcut with hlost | hsame
      · exact hlost.elim
      · exact walk_eq_ok_iff.mpr (.inl hsame.symm)
    · rw [hlink] at hcut
      rcases hcut with hlost | hsame
      · exact hlost.elim
      · rw [← hsame] at hstop
        cases hstop with
        | lost hx => exact hx.elim
        | link _ _ rest =>
          rw [← List.append_assoc] at hw
          have hbefore := ih k (Nat.lt_succ_self k) hw
          rw [List.append_assoc] at hbefore
          exact walk_eq_ok_iff.mpr (.inr ⟨k, _, _, _, rfl, hsame.symm, hbefore⟩)

/-! ## Removing a file -/

theorem removeFile_cases (h : t.removeFile p = .ok u) : ∃ place node,
    t.locate p false = .ok (.found place node) ∧ (∀ m, node ≠ .dir m) ∧ u = t.cut place := by
  unfold removeFile at h
  cases hl : t.locate p false with
  | error cause =>
    rw [hl] at h
    cases h
  | ok spot =>
    rw [hl] at h
    cases spot with
    | missing directory name => cases h
    | found place node =>
      refine ⟨place, node, rfl, ?_⟩
      cases node with
      | dir m => cases h
      | file bytes m mode =>
        cases h
        exact ⟨nofun, rfl⟩
      | link target =>
        cases h
        exact ⟨nofun, rfl⟩

/-- How a tree is left without what is at a path: nothing is found there, and every other place
holds what it held. What is not at or below the place of the path is another place, and where only
directories hold anything that is any place but the one of the path. -/
structure Swept (t u : FileTree) (p : Path) : Prop where
  vacant : u.Vacant p
  cwd : u.cwd = t.cwd
  kept : ∀ q, (∀ place node, t.locate p false = .ok (.found place node) → ¬ place <+: q) →
    u.node? q = t.node? q
  others : t.Layered → ∀ q, (∀ node, t.locate p false ≠ .ok (.found q node)) →
    u.node? q = t.node? q

theorem swept_of_vacant (h : t.Vacant p) : Swept t t p := ⟨h, rfl, fun _ _ => rfl, fun _ _ _ => rfl⟩

/-- Removing a file sweeps the tree of it, if its path ends in a name. -/
theorem swept_of_removeFile (hp : EndsInName p) (h : t.removeFile p = .ok u) : Swept t u p := by
  obtain ⟨front, n, hp, hn⟩ := hp
  obtain ⟨place, node, hlocate, hnode, rfl⟩ := removeFile_cases h
  have hwalk := walk_of_locate hlocate
  rw [hp] at hwalk
  have hheld : t.node? place = some node := node?_of_walk hn hwalk
  have hroot : place ≠ [] := by
    rintro rfl
    exact hnode ⟨0⟩ (Option.some.inj hheld.symm)
  refine ⟨fun q other hagain => ?_, rfl, fun q hq => node?_cut (hq place node hlocate),
    fun ht q hq => ?_⟩
  · -- what is found now was found before, so it is the place; but nothing is held there
    have hagain := walk_of_locate hagain
    rw [hp] at hagain
    have hbefore := walk_of_walk_cut hn hagain
    cases hwalk.symm.trans hbefore
    have hgone := node?_of_walk hn hagain
    rw [node?_cut_below (List.prefix_refl place) hroot] at hgone
    cases hgone
  · have hne : q ≠ place := by
      rintro rfl
      exact hq node hlocate
    by_cases hbelow : place <+: q
    · have hempty : q ≠ [] := fun hnil => hroot (List.prefix_nil.mp (hnil ▸ hbelow))
      rw [node?_cut_below hbelow hempty, ht.node?_below hheld hnode hbelow hne]
    · exact node?_cut hbelow

end LoadHook.FileTree
