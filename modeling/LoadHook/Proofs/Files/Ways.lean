import LoadHook.Proofs.Files.Places
import LoadHook.Proofs.Path.Normal
import Mathlib.Data.List.Induction

/-!
# Ways through a tree

A way leads from directory to directory, step by step: a `.` stays, a `..` goes up, and a name goes
down to what the directory holds under it. In a tree without symbolic links these are the ways that
the system goes. The normal form of an absolute path is the path of the place that the path leads
to, and leads there as well.
-/
namespace LoadHook.FileTree

variable {t : FileTree} {place directory q r : Place} {names ps qs : List Name} {s : Name}
  {node : Node} {p : Path} {follow : Bool}

/-! ## Steps -/

/-- There is a directory at a place. -/
def IsDirectory (t : FileTree) (place : Place) : Prop := ∃ m, t.node? place = some (.dir m)

/-- Where the pieces of a path lead from a place. Every step is taken from a directory, the root
being the directory above itself; an empty piece is no step. -/
inductive Leads (t : FileTree) : Place → List Name → Place → Prop
  | here (place : Place) : t.Leads place [] place
  | void {place q : Place} {rest : List Name} (h : t.Leads place rest q) :
    t.Leads place ([] :: rest) q
  | stay {place q : Place} {rest : List Name} (hdir : t.IsDirectory place)
    (h : t.Leads place rest q) : t.Leads place (['.'] :: rest) q
  | up {place q : Place} {rest : List Name} (hdir : t.IsDirectory place)
    (h : t.Leads place.dropLast rest q) : t.Leads place (['.', '.'] :: rest) q
  | down {place q : Place} {s : Name} {node : Node} {rest : List Name}
    (hs : Component.ofPiece s = some (.normal s)) (hdir : t.IsDirectory place)
    (hnode : t.node? (place ++ [s]) = some node) (h : t.Leads (place ++ [s]) rest q) :
    t.Leads place (s :: rest) q

theorem Leads.append (h : t.Leads place ps q) (h' : t.Leads q qs r) :
    t.Leads place (ps ++ qs) r := by
  induction h with
  | here _ => exact h'
  | void _ ih => exact .void (ih h')
  | stay hdir _ ih => exact .stay hdir (ih h')
  | up hdir _ ih => exact .up hdir (ih h')
  | down hs hdir hnode _ ih => exact .down hs hdir hnode (ih h')

/-- A place that can be come to: its names are no `.` and no `..`, and directories lead to it. -/
structure Standing (t : FileTree) (place : Place) : Prop where
  names : ∀ s ∈ place, Component.ofPiece s = some (.normal s)
  held : ∃ node, t.node? place = some node
  above : ∀ a, a <+: place → a ≠ place → t.IsDirectory a

theorem standing_root (t : FileTree) : t.Standing [] :=
  ⟨by simp, ⟨_, rfl⟩, fun a ha hne => absurd (List.prefix_nil.mp ha) hne⟩

theorem Standing.up (h : t.Standing place) : t.Standing place.dropLast := by
  have hbelow : place.dropLast <+: place := List.dropLast_prefix place
  refine ⟨fun s hs => h.names s (hbelow.subset hs), ?_, fun a ha hne => ?_⟩
  · by_cases hsame : place.dropLast = place
    · rw [hsame]
      exact h.held
    · obtain ⟨m, hm⟩ := h.above _ hbelow hsame
      exact ⟨_, hm⟩
  · refine h.above a (ha.trans hbelow) ?_
    rintro rfl
    exact hne (hbelow.eq_of_length_le ha.length_le).symm

theorem Standing.down (h : t.Standing place) (hs : Component.ofPiece s = some (.normal s))
    (hdir : t.IsDirectory place) (hnode : t.node? (place ++ [s]) = some node) :
    t.Standing (place ++ [s]) := by
  refine ⟨fun u hu => ?_, ⟨_, hnode⟩, fun a ha hne => ?_⟩
  · rcases List.mem_append.mp hu with hu | hu
    · exact h.names u hu
    · rwa [List.mem_singleton.mp hu]
  · have ha := (List.prefix_concat_iff.mp ha).resolve_left hne
    by_cases hsame : a = place
    · rwa [hsame]
    · exact h.above a ha hsame

/-- Ways lead to places that can be come to. -/
theorem Standing.of_leads (hplace : t.Standing place) (h : t.Leads place ps q) : t.Standing q := by
  induction h with
  | here _ => exact hplace
  | void _ ih => exact ih hplace
  | stay _ _ ih => exact ih hplace
  | up _ _ ih => exact ih hplace.up
  | down hs hdir hnode _ ih => exact ih (hplace.down hs hdir hnode)

/-- The names of a place lead to it. -/
theorem Standing.leads (h : t.Standing q) : t.Leads [] q q := by
  induction q using List.reverseRecOn with
  | nil => exact .here []
  | append_singleton front s ih =>
    have hfront : t.Standing front := by simpa using h.up
    obtain ⟨node, hnode⟩ := h.held
    have hdir : t.IsDirectory front := h.above front (List.prefix_append front [s]) (by simp)
    have hs : Component.ofPiece s = some (.normal s) := h.names s (by simp)
    exact (ih hfront).append (.down hs hdir hnode (.here _))

/-- No name is found on the way that is not a piece of the path. -/
theorem Leads.sublist (h : t.Leads place ps q) : q.Sublist (place ++ ps) := by
  induction h with
  | here place => simp
  | void _ ih => exact ih.trans ((List.sublist_cons_self _ _).append_left _)
  | stay _ _ ih => exact ih.trans ((List.sublist_cons_self _ _).append_left _)
  | up _ _ ih =>
    exact ih.trans ((List.dropLast_sublist _).append (List.sublist_cons_self _ _))
  | down _ _ _ _ ih => simpa using ih

/-! ## The path of a place -/

/-- By the text alone a way comes to the place that it leads to. -/
theorem Leads.foldl_push (h : t.Leads place ps q) :
    (ps.filterMap Component.ofPiece).foldl Path.push
        ((place.map Component.normal).reverse ++ [.root]) =
      (q.map Component.normal).reverse ++ [.root] := by
  induction h with
  | here _ => rfl
  | void _ ih => exact ih
  | stay _ _ ih => exact ih
  | @up place _ _ _ _ ih =>
    have hup : Component.ofPiece ['.', '.'] = some .parent := rfl
    rw [List.filterMap_cons_some hup, List.foldl_cons, ← ih]
    congr 1
    rcases List.eq_nil_or_concat place with rfl | ⟨front, s, rfl⟩
    · rfl
    · simp [Path.push]
  | down hs _ _ _ ih =>
    rw [List.filterMap_cons_some hs, List.foldl_cons, ← ih]
    simp [Path.push]

theorem Standing.solid (h : t.Standing q) (hq : ∀ s ∈ q, '/' ∉ s) : Path.Solid q := by
  refine fun s hs => ⟨?_, hq s hs⟩
  rintro rfl
  cases h.names [] hs

/-- What an absolute path leads to. -/
abbrev LeadsTo (t : FileTree) (p : Path) (q : Place) : Prop := t.Leads [] p.pieces q

theorem LeadsTo.standing (h : t.LeadsTo p q) : t.Standing q := (standing_root t).of_leads h

theorem LeadsTo.not_mem (h : t.LeadsTo p q) (hs : s ∈ q) : '/' ∉ s :=
  Path.not_mem_of_mem_pieces ((Leads.sublist h).subset hs)

/-- The normal form of a path is the path of the place that it leads to. -/
theorem normalize_eq_pathOf (hp : p.isAbsolute) (h : t.LeadsTo p q) : p.normalize = pathOf q := by
  obtain ⟨ms, -, hstack, hnormal⟩ := p.exists_normalize
  have hms : ms = q.map .normal := by
    rw [Path.stack, hp] at hstack
    have hplace := (Leads.foldl_push h).symm.trans hstack
    exact (List.reverse_inj.mp (List.append_cancel_right hplace)).symm
  have hpiece : (q.map Component.normal).map Component.piece = q := by
    rw [List.map_map]
    exact List.map_id q
  rw [hnormal, hms, hp, hpiece, pathOf]

/-- The path of a place leads there. -/
theorem Standing.leadsTo (h : t.Standing q) (hq : ∀ s ∈ q, '/' ∉ s) : t.LeadsTo (pathOf q) q := by
  rw [LeadsTo, pathOf, Path.pieces_ofPieces (h.solid hq)]
  split
  · next hnil =>
    rw [hnil]
    exact .void (.here [])
  · exact h.leads

/-! ## The ways of the system -/

theorem Leads.eq_of_file (h : t.Leads place names q) (hplace : ¬ t.IsDirectory place)
    (hnames : [] ∉ names) : names = [] ∧ q = place := by
  cases h with
  | here _ => exact ⟨rfl, rfl⟩
  | void _ => exact absurd List.mem_cons_self hnames
  | stay hdir _ => exact absurd hdir hplace
  | up hdir _ => exact absurd hdir hplace
  | down _ hdir _ _ => exact absurd hdir hplace

/-- What a way does that begins with a name. -/
theorem leads_name_iff (hs : Component.ofPiece s = some (.normal s))
    (hdir : t.IsDirectory directory) :
    t.Leads directory (s :: names) q ↔
      ∃ n, t.node? (directory ++ [s]) = some n ∧ t.Leads (directory ++ [s]) names q := by
  constructor
  · intro h
    cases h with
    | void _ => cases hs
    | stay _ _ => cases hs
    | up _ _ => cases hs
    | down _ _ hnode h => exact ⟨_, hnode, h⟩
  · rintro ⟨_, hnode, h⟩
    exact .down hs hdir hnode h

theorem leads_stay_iff (hdir : t.IsDirectory directory) :
    t.Leads directory (['.'] :: names) q ↔ t.Leads directory names q := by
  constructor
  · intro h
    cases h with
    | stay _ h => exact h
    | down hs => cases hs
  · exact .stay hdir

theorem leads_up_iff (hdir : t.IsDirectory directory) :
    t.Leads directory (['.', '.'] :: names) q ↔ t.Leads directory.dropLast names q := by
  constructor
  · intro h
    cases h with
    | up _ h => exact h
    | down hs => cases hs
  · exact .up hdir

/-- In a tree without links the system goes step by step. -/
theorem walkNames_eq_found_iff (ht : t.Unlinked) (hd : t.Reached directory)
    (hnames : [] ∉ names) :
    t.walkNames follow directory names = .spot (.found q node) ↔
      t.Leads directory names q ∧ t.node? q = some node ∧
        ∀ s ∈ names, byteLength s ≤ nameLimit := by
  induction names generalizing directory with
  | nil =>
    obtain ⟨m, hm⟩ := hd directory (List.prefix_refl _)
    rw [walkNames, hm]
    constructor
    · rintro ⟨⟩
      exact ⟨.here _, hm, by simp⟩
    · rintro ⟨⟨⟩, hnode, -⟩
      rw [hm] at hnode
      cases hnode
      rfl
  | cons s rest ih =>
    have hdir : t.IsDirectory directory := hd directory (List.prefix_refl _)
    obtain ⟨hs, hrest⟩ := not_or.mp (List.mem_cons.not.mp hnames)
    rw [List.forall_mem_cons]
    by_cases hdots : IsDots s
    · have hfits : byteLength s ≤ nameLimit := by rcases hdots with rfl | rfl <;> decide
      rw [and_iff_right hfits]
      rcases hdots with rfl | rfl
      · rw [walkNames_here, ih hd hrest, leads_stay_iff hdir]
      · rw [walkNames_up, ih hd.up hrest, upName, leads_up_iff hdir]
    · obtain ⟨hdot, hup⟩ := not_isDots_iff.mp hdots
      have hname : Component.ofPiece s = some (.normal s) := by
        simp [Component.ofPiece, Ne.symm hs, hdot, hup]
      rw [leads_name_iff hname hdir, walkNames_name_eq_found_iff ht hdots]
      constructor
      · rintro ⟨hshort, n, hnode, ⟨⟨m, rfl⟩, hw⟩ | ⟨-, rfl, rfl, rfl⟩⟩
        · obtain ⟨h, hq, hfit⟩ := (ih (hd.down hnode) hrest).mp hw
          exact ⟨⟨_, hnode, h⟩, hq, hshort, hfit⟩
        · exact ⟨⟨_, hnode, .here _⟩, hnode, hshort, by simp⟩
      · rintro ⟨⟨n, hnode, h⟩, hq, hshort, hfit⟩
        refine ⟨hshort, n, hnode, ?_⟩
        by_cases hn : ∃ m, n = .dir m
        · obtain ⟨m, rfl⟩ := hn
          exact .inl ⟨⟨m, rfl⟩, (ih (hd.down hnode) hrest).mpr ⟨h, hq, hfit⟩⟩
        · have hfile : ¬ t.IsDirectory (directory ++ [s]) := by
            rintro ⟨m, hm⟩
            exact hn ⟨m, Option.some.inj (hnode.symm.trans hm)⟩
          obtain ⟨rfl, rfl⟩ := h.eq_of_file hfile hrest
          cases hnode.symm.trans hq
          exact .inr ⟨fun m hm => hn ⟨m, hm⟩, rfl, rfl, rfl⟩

theorem nil_not_mem_namesOf (p : Path) : [] ∉ namesOf p := by
  rw [namesOf, List.mem_append, not_or]
  refine ⟨fun h => ?_, fun h => ?_⟩
  · simpa using (List.mem_filter.mp h).2
  · split at h <;> simp at h

/-- What an absolute path leads to in the eyes of the system. -/
theorem stat_eq_ok_iff (ht : t.Unlinked) (hp : p.isAbsolute) :
    t.stat p = .ok (q, node) ↔
      (p.chars.contains '\x00' = false ∧ byteLength p.chars ≤ pathLimit ∧
        ∀ s ∈ namesOf p, byteLength s ≤ nameLimit) ∧
      t.Leads [] (namesOf p) q ∧ t.node? q = some node := by
  have hne : p.chars.isEmpty = false := by rw [Path.chars_of_absolute hp]; rfl
  have hwalk : t.walk true linkLimit [] (namesOf p) = .ok (.found q node) ↔
      t.Leads [] (namesOf p) q ∧ t.node? q = some node ∧
        ∀ s ∈ namesOf p, byteLength s ≤ nameLimit := by
    rw [walk_eq_ok_iff, ← walkNames_eq_found_iff ht (reached_root t) (nil_not_mem_namesOf p)]
    exact or_iff_left fun ⟨_, _, _, _, _, hlink, _⟩ => walkNames_ne_link ht hlink
  constructor
  · intro h
    have hlocate := locate_of_stat h
    obtain ⟨hleads, hnode, hfit⟩ : _ ∧ _ ∧ _ := by
      have hw := walk_of_locate hlocate
      rw [if_pos hp] at hw
      exact hwalk.mp hw
    unfold locate at hlocate
    split at hlocate
    · cases hlocate
    · next hnul =>
      rw [if_neg (by simp [hne])] at hlocate
      split at hlocate
      · cases hlocate
      · next hshort =>
        exact ⟨⟨Bool.eq_false_iff.mpr hnul, Nat.not_lt.mp hshort, hfit⟩, hleads, hnode⟩
  · rintro ⟨⟨hnul, hshort, hfit⟩, hleads, hnode⟩
    have hlocate : t.locate p true = .ok (.found q node) := by
      rw [locate, hnul, hne, if_neg (Nat.not_lt.mpr hshort), if_pos hp,
        hwalk.mpr ⟨hleads, hnode, hfit⟩]
      rfl
    rw [stat, hlocate]
    rfl

/-! ## The same node -/

theorem Leads.of_filter (h : t.Leads place (ps.filter (· ≠ [])) q) : t.Leads place ps q := by
  induction ps generalizing place with
  | nil => exact h
  | cons s rest ih =>
    by_cases hs : s = []
    · rw [List.filter_cons_of_neg (by simpa using hs)] at h
      rw [hs]
      exact .void (ih h)
    · rw [List.filter_cons_of_pos (by simpa using hs)] at h
      cases h with
      | void _ => exact absurd rfl hs
      | stay hdir h => exact .stay hdir (ih h)
      | up hdir h => exact .up hdir (ih h)
      | down hname hdir hnode h => exact .down hname hdir hnode (ih h)

theorem Leads.of_concat_dot (h : t.Leads place (ps ++ [['.']]) q) : t.Leads place ps q := by
  induction ps generalizing place with
  | nil =>
    cases h with
    | stay _ h => exact h
    | down hname => cases hname
  | cons s rest ih =>
    rw [List.cons_append] at h
    cases h with
    | void h => exact .void (ih h)
    | stay hdir h => exact .stay hdir (ih h)
    | up hdir h => exact .up hdir (ih h)
    | down hname hdir hnode h => exact .down hname hdir hnode (ih h)

theorem leadsTo_of_namesOf (h : t.Leads [] (namesOf p) q) : t.LeadsTo p q := by
  rw [namesOf] at h
  split at h
  · exact (h.of_concat_dot).of_filter
  · rw [List.append_nil] at h
    exact h.of_filter

/-- The path of a place is walked along the names of the place. -/
theorem namesOf_pathOf (hq : Path.Solid q) :
    namesOf (pathOf q) = if q = [] then [['.']] else q := by
  have hpieces : (pathOf q).pieces = if q = [] then [[]] else q := Path.pieces_ofPieces hq
  split
  · next hnil =>
    rw [hnil]
    rfl
  · next hne =>
    rw [if_neg hne] at hpieces
    have hempty : [] ∉ q := fun hmem => (hq [] hmem).1 rfl
    have hsingle : (pathOf q).Single := Path.single_of_pieces (.inr (by rwa [hpieces]))
    have hlast : ((pathOf q).chars.getLast? == some '/') = false := by
      rw [beq_eq_false_iff_ne]
      intro hlast
      have hroot : pathOf q = ⟨['/']⟩ := congrArg Path.mk (hsingle.closed hlast)
      rw [hroot] at hpieces
      exact hempty (hpieces ▸ List.mem_singleton.mpr rfl)
    rw [namesOf, hpieces, hlast, List.filter_eq_self.mpr]
    · simp
    · intro s hs
      simpa using (hq s hs).1

theorem joinSegments_sublist (h : ps.Sublist qs) :
    (Path.joinSegments ps).Sublist (Path.joinSegments qs) := by
  induction h with
  | slnil => exact .slnil
  | @cons ps qs s h ih =>
    cases qs with
    | nil =>
      rw [List.sublist_nil.mp h]
      exact List.nil_sublist _
    | cons u more =>
      exact ih.trans ((List.sublist_cons_self _ _).trans (List.sublist_append_right _ _))
  | @cons_cons ps qs s h ih =>
    cases qs with
    | nil =>
      rw [List.sublist_nil.mp h]
    | cons u more =>
      cases ps with
      | nil => exact List.sublist_append_left _ _
      | cons v rest => exact (List.Sublist.refl s).append (ih.cons_cons '/')

theorem byteLength_cons (c : Char) (cs : List Char) :
    byteLength (c :: cs) = c.utf8Size + byteLength cs := by
  have hfold (n : Nat) (cs : List Char) :
      cs.foldl (fun n c => n + c.utf8Size) n = n + byteLength cs := by
    induction cs generalizing n with
    | nil => rfl
    | cons c cs ih =>
      rw [byteLength, List.foldl_cons, List.foldl_cons, ih, ih, Nat.zero_add, Nat.add_assoc]
  rw [byteLength, List.foldl_cons, hfold, Nat.zero_add]

theorem byteLength_le {cs ds : List Char} (h : cs.Sublist ds) :
    byteLength cs ≤ byteLength ds := by
  induction h with
  | slnil => exact Nat.le_refl _
  | cons c _ ih =>
    rw [byteLength_cons]
    omega
  | cons_cons c _ ih =>
    rw [byteLength_cons, byteLength_cons]
    omega

/-- What the system finds at an absolute path it finds at the normal form of it. -/
theorem stat_normalize (ht : t.Unlinked) (hp : p.isAbsolute) (h : t.stat p = .ok (q, node)) :
    t.stat p.normalize = .ok (q, node) := by
  obtain ⟨⟨hnul, hshort, hfit⟩, hleads, hnode⟩ := (stat_eq_ok_iff ht hp).mp h
  have hto : t.LeadsTo p q := leadsTo_of_namesOf hleads
  have hsolid : Path.Solid q := hto.standing.solid fun s hs => hto.not_mem hs
  have hchars : (pathOf q).chars.Sublist p.chars := by
    have hjoin := joinSegments_sublist (Leads.sublist hto)
    rw [List.nil_append, Path.pieces, Path.joinSegments_segments] at hjoin
    rw [Path.chars_of_absolute hp]
    exact hjoin.cons_cons '/'
  rw [normalize_eq_pathOf hp hto, stat_eq_ok_iff ht rfl, namesOf_pathOf hsolid]
  refine ⟨⟨?_, Nat.le_trans (byteLength_le hchars) hshort, fun s hs => ?_⟩, ?_, hnode⟩
  · rw [Bool.eq_false_iff, ne_eq, List.contains_iff_mem] at hnul ⊢
    exact fun hmem => hnul (hchars.subset hmem)
  · split at hs
    · rw [List.mem_singleton.mp hs]
      decide
    · have hmem : s ∈ p.pieces.filter (· ≠ []) :=
        List.mem_filter.mpr ⟨(Leads.sublist hto).subset hs, by simpa using (hsolid s hs).1⟩
      exact hfit s (List.mem_append_left _ hmem)
  · split
    · next hnil =>
      rw [hnil]
      exact .stay ⟨_, rfl⟩ (.here [])
    · exact hto.standing.leads

end LoadHook.FileTree
