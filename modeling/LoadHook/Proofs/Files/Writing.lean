import LoadHook.Files.Access
import LoadHook.Proofs.Files.Places
import LoadHook.Proofs.Lookup

/-!
# Written files

What is written at a path is read there, through whatever links the path goes. An absolute path is
read alike from every working directory.
-/
namespace LoadHook.FileTree

variable {t u : FileTree} {place directory q : Place} {names : List Name} {node new : Node}
  {p : Path} {follow : Bool} {links : Nat} {s : Spot} {bytes : ByteArray} {now : Time}

/-! ## Putting a node at a place -/

theorem lookup_replace (place : Place) (new : Node) (nodes : List (Place × Node)) (q : Place)
    (h : q ≠ place ∨ (nodes.lookup place).isSome) :
    (nodes.map fun n => if n.1 = place then (place, new) else n).lookup q =
      if q = place then some new else nodes.lookup q := by
  induction nodes with
  | nil =>
    have hne : q ≠ place := h.resolve_right (by simp)
    simp [hne]
  | cons n rest ih =>
    obtain ⟨a, old⟩ := n
    rw [List.map_cons, Lookup.lookup_cons, Lookup.lookup_cons]
    by_cases ha : a = place
    · subst ha
      rw [if_pos rfl]
      by_cases hq : q = a
      · simp [hq]
      · rw [if_neg (Ne.symm hq), if_neg hq, if_neg (Ne.symm hq), ih (.inl hq), if_neg hq]
    · rw [if_neg ha]
      by_cases hq : a = q
      · rw [if_pos hq, if_pos hq, if_neg (hq ▸ ha)]
      · rw [if_neg hq, if_neg hq, ih (h.imp_right fun hsome => ?_)]
        rwa [Lookup.lookup_cons, if_neg ha] at hsome

/-- A place holds what was put there, and the other places hold what they held. -/
theorem node?_put (hplace : place ≠ []) :
    (t.put place new).node? q = if q = place then some new else t.node? q := by
  unfold node? put
  by_cases hq : q = []
  · rw [if_pos hq, if_pos hq, if_neg (hq ▸ Ne.symm hplace)]
  · rw [if_neg hq, if_neg hq]
    split
    · next hsome => exact lookup_replace place new t.nodes q (.inr hsome)
    · next hnone =>
      have hnone : t.nodes.lookup place = none := Option.not_isSome_iff_eq_none.mp hnone
      have hlast : [(place, new)].lookup q = if q = place then some new else none := by
        rw [Lookup.lookup_cons]
        simp [eq_comm]
      rw [List.lookup_append, hlast]
      split
      · next hsame => rw [hsame, hnone, Option.none_or]
      · rw [Option.or_none]

/-! ## Walks to what was put -/

/-- The place that a spot tells of. -/
def spotPlace : Spot → Place
  | .found place _ => place
  | .missing directory name => directory ++ [name]

/-- A spot is what the tree holds at its place. Only the root is a directory that no node tells. -/
def Fits (t : FileTree) : Spot → Prop
  | .found place node => t.node? place = some node ∨ ∃ m, node = .dir m
  | .missing directory name => t.node? (directory ++ [name]) = none

theorem fits_of_walkNames (h : t.walkNames follow directory names = .spot s) : t.Fits s := by
  fun_induction t.walkNames follow directory names with
  | case1 directory =>
    cases h
    cases hnode : t.node? directory with
    | some node => exact .inl hnode
    | none => exact .inr ⟨_, rfl⟩
  | case2 _ _ ih => exact ih h
  | case3 _ _ _ ih => exact ih h
  | case5 directory name rest _ _ _ here hnone _ =>
    cases h
    exact hnone
  | case7 _ _ _ _ _ _ _ _ _ ih => exact ih h
  | case8 directory name rest _ _ _ here target hlink _ =>
    cases h
    exact .inl hlink
  | case10 directory name rest _ _ _ here node _ _ hnode _ =>
    cases h
    exact .inl hnode
  | _ => cases h

theorem fits_of_walk (h : t.walk follow links directory names = .ok s) : t.Fits s := by
  induction links using Nat.strongRecOn generalizing directory names with
  | ind links ih =>
    rcases walk_eq_ok_iff.mp h with hspot | ⟨n, _, _, _, rfl, -, h⟩
    · exact fits_of_walkNames hspot
    · exact ih n (Nat.lt_succ_self n) h

/-- What a file may be put in the place of: a file, or nothing. -/
structure Free (t : FileTree) (place : Place) : Prop where
  below : place ≠ []
  file : ∀ node, t.node? place = some node → node.isFile

/-- No way goes on from there. -/
theorem Free.ne (hfree : t.Free place) (hnode : t.node? q = some node)
    (hfile : node.isFile = false) : q ≠ place := by
  rintro rfl
  exact absurd (hfree.file node hnode) (by simp [hfile])

theorem node?_put_free (hfree : t.Free place) (hnode : t.node? q = some node)
    (hfile : node.isFile = false) : (t.put place new).node? q = some node := by
  rw [node?_put hfree.below, if_neg (hfree.ne hnode hfile), hnode]

theorem node?_put_self (hfree : t.Free place) : (t.put place new).node? place = some new := by
  rw [node?_put hfree.below, if_pos rfl]

/-- What becomes of a walk when a node is put at a place: who is led on by a link is still led on by
it, and who comes to the place finds the node. -/
def PutStop (place : Place) (new : Node) : Stop → Stop → Prop
  | .spot s, x => spotPlace s = place → x = .spot (.found place new)
  | .link directory target rest, x => x = .link directory target rest
  | .failed _, _ => True

theorem putStop_walkNames (bytes : ByteArray) (m : Time) (mode : Nat) (hfree : t.Free place)
    (follow : Bool) (directory : Place) (names : List Name) :
    PutStop place (.file bytes m mode) (t.walkNames follow directory names)
      ((t.put place (.file bytes m mode)).walkNames follow directory names) := by
  have hself : (t.put place (.file bytes m mode)).node? place = some (.file bytes m mode) :=
    node?_put_self hfree
  fun_induction t.walkNames follow directory names with
  | case1 directory =>
    intro (hplace : directory = place)
    rw [hplace, walkNames, hself, Option.getD_some]
  | case2 directory rest ih => rwa [walkNames_here]
  | case3 directory rest hdot ih => rwa [← upName, walkNames_up]
  | case4 => trivial
  | case5 directory name rest hdot hup hshort here hnone hend =>
    intro (hplace : directory ++ [name] = place)
    rw [walkNames_name (not_isDots_iff.mpr ⟨hdot, hup⟩) hshort, hplace, hself]
    exact if_pos hend
  | case6 => trivial
  | case7 directory name rest hdot hup hshort here stamp hdir ih =>
    rwa [walkNames_name (not_isDots_iff.mpr ⟨hdot, hup⟩) hshort, node?_put_free hfree hdir rfl]
  | case8 directory name rest hdot hup hshort here target hlink hend =>
    intro (hplace : directory ++ [name] = place)
    exact absurd hplace (hfree.ne hlink rfl)
  | case9 directory name rest hdot hup hshort here target hlink hon =>
    rw [walkNames_name (not_isDots_iff.mpr ⟨hdot, hup⟩) hshort, node?_put_free hfree hlink rfl]
    exact if_neg hon
  | case10 directory name rest hdot hup hshort here node _ _ hnode hend =>
    intro (hplace : directory ++ [name] = place)
    rw [walkNames_name (not_isDots_iff.mpr ⟨hdot, hup⟩) hshort, hplace, hself]
    exact if_pos hend
  | case11 => trivial

theorem walk_put (bytes : ByteArray) (m : Time) (mode : Nat) (hfree : t.Free (spotPlace s))
    (hw : t.walk follow links directory names = .ok s) :
    (t.put (spotPlace s) (.file bytes m mode)).walk follow links directory names =
      .ok (.found (spotPlace s) (.file bytes m mode)) := by
  induction links using Nat.strongRecOn generalizing directory names with
  | ind links ih =>
    have hstop := putStop_walkNames bytes m mode hfree follow directory names
    rcases walk_eq_ok_iff.mp hw with hspot | ⟨n, d, target, rest, rfl, hlink, hw⟩
    · rw [hspot] at hstop
      exact walk_eq_ok_iff.mpr (.inl (hstop rfl))
    · rw [hlink] at hstop
      exact walk_eq_ok_iff.mpr (.inr ⟨n, d, target, rest, rfl, hstop, ih n (Nat.lt_succ_self n) hw⟩)

@[simp] theorem cwd_put (t : FileTree) (place : Place) (new : Node) :
    (t.put place new).cwd = t.cwd := by
  unfold put
  split <;> rfl

theorem locate_put (bytes : ByteArray) (m : Time) (mode : Nat) (hfree : t.Free (spotPlace s))
    (hl : t.locate p follow = .ok s) :
    (t.put (spotPlace s) (.file bytes m mode)).locate p follow =
      .ok (.found (spotPlace s) (.file bytes m mode)) := by
  have hwalk := walk_put bytes m mode hfree (walk_of_locate hl)
  unfold locate at hl ⊢
  rw [cwd_put, hwalk]
  split
  · next hnul => rw [if_pos hnul] at hl; cases hl
  · next hnul =>
    rw [if_neg hnul] at hl
    split
    · next hempty => rw [if_pos hempty] at hl; cases hl
    · next hempty =>
      rw [if_neg hempty] at hl
      split
      · next hlong => rw [if_pos hlong] at hl; cases hl
      · rfl

theorem node?_root (t : FileTree) : t.node? [] = some (.dir ⟨0⟩) := rfl

/-- A file that can be written is found where it was written. -/
theorem stat_of_write (h : t.write p bytes now = .ok u) :
    ∃ place m mode, u.stat p = .ok (place, .file bytes m mode) := by
  unfold write at h
  cases hl : t.locate p true with
  | error cause =>
    rw [hl] at h
    cases h
  | ok s =>
    rw [hl] at h
    have hfits := fits_of_walk (walk_of_locate hl)
    have hput (mode : Nat) (hfree : t.Free (spotPlace s)) :
        (t.put (spotPlace s) (.file bytes now mode)).stat p =
          .ok (spotPlace s, .file bytes now mode) := by
      rw [stat, locate_put bytes now mode hfree hl]
      rfl
    cases s with
    | missing directory name =>
      cases h
      have hnone : t.node? (directory ++ [name]) = none := hfits
      refine ⟨_, now, plainMode, hput plainMode ⟨by simp [spotPlace], fun node hnode => ?_⟩⟩
      cases hnone.symm.trans hnode
    | found place node =>
      cases node with
      | file old m mode =>
        cases h
        have hold : t.node? place = some (.file old m mode) := hfits.resolve_right nofun
        refine ⟨_, now, mode, hput mode ⟨?_, fun node hnode => ?_⟩⟩
        · intro hroot
          have hroot : place = [] := hroot
          subst hroot
          cases hold.symm.trans (node?_root t)
        · rw [← Option.some.inj (hold.symm.trans hnode)]
          rfl
      | dir m => cases h
      | link target => cases h

/-- What is written is read. -/
theorem readText_of_writeText {text : String} (h : t.writeText p text now = .ok u) :
    u.readText p = .ok text := by
  obtain ⟨place, m, mode, hstat⟩ := stat_of_write h
  have hbytes : u.readBytes p = .ok (Text.encode text) := by
    rw [readBytes, hstat]
    rfl
  rw [readText, hbytes]
  simp only [bind, Except.bind, Text.decode_encode]
  rfl

/-! ## Reading from another directory -/

/-- The tree seen from another working directory. -/
def seenFrom (t : FileTree) (here : Place) : FileTree := { t with cwd := here }

theorem walkNames_seenFrom (here : Place) :
    (t.seenFrom here).walkNames follow directory names = t.walkNames follow directory names := by
  have hnode (q : Place) : (t.seenFrom here).node? q = t.node? q := rfl
  induction names generalizing directory with
  | nil => rfl
  | cons name rest ih => simp only [walkNames, hnode, ih]

theorem walk_seenFrom (here : Place) :
    (t.seenFrom here).walk follow links directory names = t.walk follow links directory names := by
  induction links using Nat.strongRecOn generalizing directory names with
  | ind links ih =>
    rw [walk.eq_def, walk.eq_def t, walkNames_seenFrom]
    split
    · rfl
    · rfl
    · rfl
    · exact ih _ (Nat.lt_succ_self _)

/-- An absolute path is found from everywhere. -/
theorem stat_seenFrom (hp : p.isAbsolute) (here : Place) : (t.seenFrom here).stat p = t.stat p := by
  rw [stat, stat, locate, locate, if_pos hp, if_pos hp, walk_seenFrom]

theorem readText_seenFrom (hp : p.isAbsolute) (here : Place) :
    (t.seenFrom here).readText p = t.readText p := by
  rw [readText, readText, readBytes, readBytes, stat_seenFrom hp]

end LoadHook.FileTree
