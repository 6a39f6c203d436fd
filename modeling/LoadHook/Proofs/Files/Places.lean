import LoadHook.Files.Access
import LoadHook.Proofs.Files.Walk
import LoadHook.Proofs.Path.Canonical
import Mathlib.Data.List.Dedup

/-!
# Places of files

In a tree without symbolic links a canonical path leads to the place of its own names. So no two
canonical paths with different components lead to one file, and there are no more of them that lead
to files than there are files in the tree.
-/
namespace LoadHook

namespace Path

variable {p q : Path} {s : Name} {ps : List Name}

/-- The names along a path. -/
def names (p : Path) : List Name := p.pieces.filter fun s => s ≠ [] && s ≠ ['.']

theorem filterMap_ofPiece_names (hup : ['.', '.'] ∉ ps) :
    ps.filterMap Component.ofPiece =
      (ps.filter fun s => s ≠ [] && s ≠ ['.']).map .normal := by
  induction ps with
  | nil => rfl
  | cons s rest ih =>
    obtain ⟨hs, hrest⟩ := not_or.mp (List.mem_cons.not.mp hup)
    have hs : s ≠ ['.', '.'] := Ne.symm hs
    by_cases hvoid : s = [] ∨ s = ['.']
    · rw [List.filterMap_cons_none, ih hrest, List.filter_cons_of_neg]
      · rcases hvoid with rfl | rfl <;> simp
      · rcases hvoid with rfl | rfl <;> rfl
    · obtain ⟨hempty, hdot⟩ := not_or.mp hvoid
      rw [List.filterMap_cons_some (b := .normal s), ih hrest, List.filter_cons_of_pos,
        List.map_cons]
      · simp [hempty, hdot]
      · simp [Component.ofPiece, hempty, hdot, hs]

/-- A canonical path is told by its names. -/
theorem Canonical.components_eq (hp : p.Canonical) :
    p.components = .root :: p.names.map .normal := by
  rw [components_of_absolute hp.absolute, filterMap_ofPiece_names hp.straight, names]

theorem Canonical.same_of_names (hp : p.Canonical) (hq : q.Canonical) (h : p.names = q.names) :
    p.same q := by
  rw [same_iff, hp.components_eq, hq.components_eq, h]

/-- The names of a path, written as a path. -/
theorem names_pathOf (hp : p.Canonical) :
    (FileTree.pathOf p.names).Canonical ∧ (FileTree.pathOf p.names).names = p.names := by
  have hsub : ∀ s ∈ p.names, s ∈ p.pieces := fun s hs => (List.mem_filter.mp hs).1
  have hpieces : (FileTree.pathOf p.names).pieces = if p.names = [] then [[]] else p.names := by
    rw [FileTree.pathOf, ofPieces, if_pos rfl, pieces_cons]
    split
    · next hnil =>
      rw [hnil]
      rfl
    · next hne => exact segments_joinSegments hne fun s hs => not_mem_of_mem_pieces (hsub s hs)
  by_cases hnil : p.names = []
  · rw [if_pos hnil] at hpieces
    exact ⟨⟨rfl, by simp [hpieces]⟩, by rw [names, hpieces, hnil]; rfl⟩
  · rw [if_neg hnil] at hpieces
    refine ⟨⟨rfl, fun hup => hp.straight (hsub _ (hpieces ▸ hup))⟩, ?_⟩
    rw [names, hpieces, names, List.filter_filter]
    simp

theorem Canonical.same_pathOf (hp : p.Canonical) : p.same (FileTree.pathOf p.names) := by
  obtain ⟨hcanonical, hnames⟩ := names_pathOf hp
  exact hp.same_of_names hcanonical hnames.symm

theorem void_of_go {index : Nat} (h : dropVoid.go true index ps = []) :
    ∀ s ∈ ps, s = [] ∨ s = ['.'] := by
  induction ps generalizing index with
  | nil => simp
  | cons t rest ih =>
    unfold dropVoid.go at h
    split at h
    · next hrest =>
      split at h
      · next hvoid =>
        have ht : t = [] ∨ t = ['.'] := by simpa [isVoid] using hvoid
        exact fun s hs => (List.mem_cons.mp hs).elim (fun e => e ▸ ht) (ih hrest s)
      · cases h
    · cases h

/-- A path with no directory above it has no piece that counts. -/
theorem void_of_parent (hp : p.isAbsolute) (h : p.parent = none) :
    ∀ s ∈ p.pieces, s = [] ∨ s = ['.'] := by
  have hdrop : dropVoid true p.pieces = [] := by
    rw [Path.parent, hp] at h
    split at h
    · next hnil => exact hnil
    · cases h
  cases hps : p.pieces with
  | nil => simp
  | cons s rest =>
    rw [hps] at hdrop
    exact void_of_go hdrop

/-- Only the root has no directory above it. -/
theorem Canonical.names_of_parent (hp : p.Canonical) (h : p.parent = none) : p.names = [] := by
  rw [names, List.filter_eq_nil_iff]
  intro s hs
  rcases void_of_parent hp.absolute h s hs with rfl | rfl <;> simp

end Path

namespace Node

/-- Whether a node is a symbolic link. -/
def isLink : Node → Bool
  | .link _ => true
  | _ => false

/-- Whether a node is a file. -/
def isFile : Node → Bool
  | .file _ _ _ => true
  | _ => false

end Node

namespace FileTree

variable {t : FileTree} {place directory : Place} {ns : List Name} {node : Node} {p : Path}
  {follow : Bool}

/-- A tree without symbolic links. -/
def Unlinked (t : FileTree) : Prop := ∀ n ∈ t.nodes, n.2.isLink = false

instance (t : FileTree) : Decidable t.Unlinked :=
  inferInstanceAs (Decidable (∀ n ∈ t.nodes, n.2.isLink = false))

theorem Unlinked.node?_ne (ht : t.Unlinked) (place : Place) (target : Path) :
    t.node? place ≠ some (.link target) := by
  unfold node?
  split
  · simp
  · intro h
    obtain ⟨before, after, hnodes, -⟩ := List.lookup_eq_some_iff.mp h
    have hlink := ht (place, .link target)
      (hnodes ▸ List.mem_append_right before List.mem_cons_self)
    cases hlink

/-- What the system finds behind a name: in a directory it goes on, and anything else is found only
at the end. -/
theorem walkNames_name_eq_found_iff (ht : t.Unlinked) {s : Name} {q : Place}
    (hdots : ¬ IsDots s) :
    t.walkNames follow directory (s :: ns) = .spot (.found q node) ↔
      byteLength s ≤ nameLimit ∧ ∃ n, t.node? (directory ++ [s]) = some n ∧
        ((∃ m, n = .dir m) ∧ t.walkNames follow (directory ++ [s]) ns = .spot (.found q node) ∨
          (∀ m, n ≠ .dir m) ∧ ns = [] ∧ q = directory ++ [s] ∧ node = n) := by
  by_cases hlong : nameLimit < byteLength s
  · rw [walkNames_long hdots hlong]
    exact ⟨nofun, fun h => absurd hlong (Nat.not_lt.mpr h.1)⟩
  · rw [walkNames_name hdots hlong, and_iff_right (Nat.not_lt.mp hlong)]
    cases hnode : t.node? (directory ++ [s]) with
    | none =>
      refine ⟨fun h => ?_, nofun⟩
      cases hempty : ns.isEmpty <;> simp [hempty] at h
    | some n =>
      cases n with
      | dir m => simp
      | link target => exact absurd hnode (ht.node?_ne _ _)
      | file bytes m mode => cases ns <;> simp [eq_comm]

/-- A walk that does not go up, in a tree without links, ends at the place of the names that it
walks along. -/
theorem place_of_walkNames (ht : t.Unlinked) (hup : upName ∉ ns)
    (hw : t.walkNames follow directory ns = .spot (.found place node)) :
    place = directory ++ ns.filter (· ≠ ['.']) ∧
      (t.node? place = some node ∨ ∃ m, node = .dir m) := by
  induction ns generalizing directory with
  | nil =>
    cases hw
    refine ⟨by simp, ?_⟩
    cases hnode : t.node? place with
    | some node => exact .inl rfl
    | none => exact .inr ⟨_, rfl⟩
  | cons s rest ih =>
    obtain ⟨hs, hrest⟩ := not_or.mp (List.mem_cons.not.mp hup)
    by_cases hdot : s = ['.']
    · rw [hdot, walkNames_here] at hw
      rw [List.filter_cons_of_neg (by simpa using hdot)]
      exact ih hrest hw
    · have hdots : ¬ IsDots s := not_isDots_iff.mpr ⟨hdot, Ne.symm hs⟩
      rw [List.filter_cons_of_pos (by simpa using hdot)]
      obtain ⟨-, n, hnode, ⟨-, hw⟩ | ⟨-, rfl, rfl, rfl⟩⟩ :=
        (walkNames_name_eq_found_iff ht hdots).mp hw
      · obtain ⟨hplace, hnode⟩ := ih hrest hw
        exact ⟨by rw [hplace, List.append_assoc, List.singleton_append], hnode⟩
      · exact ⟨by simp, .inl hnode⟩

/-- No walk ends at a link there. -/
theorem walkNames_ne_link (ht : t.Unlinked) {d : Place} {target : Path} {rest : List Name} :
    t.walkNames follow directory ns ≠ .link d target rest := by
  induction ns generalizing directory with
  | nil => simp [walkNames]
  | cons s more ih =>
    rw [walkNames]
    split
    · exact ih
    · split
      · exact ih
      · split
        · simp
        · dsimp only
          split
          · split <;> simp
          · exact ih
          · next hlink => exact absurd hlink (ht.node?_ne _ _)
          · split <;> simp

/-- A canonical path leads to the place of its names. -/
theorem place_of_stat (ht : t.Unlinked) (hp : p.Canonical) (hs : t.stat p = .ok (place, node)) :
    place = p.names ∧ (t.node? place = some node ∨ ∃ m, node = .dir m) := by
  have hnames : (namesOf p).filter (· ≠ ['.']) = p.names := by
    rw [namesOf, List.filter_append, List.filter_filter, Path.names]
    split <;> simp [Bool.and_comm]
  have hup : upName ∉ namesOf p := by
    rw [namesOf, List.mem_append, not_or]
    refine ⟨fun h => hp.straight (List.mem_filter.mp h).1, ?_⟩
    split <;> simp [upName]
  have hwalk := walk_of_locate (locate_of_stat hs)
  rw [hp.absolute, if_pos rfl] at hwalk
  rcases walk_eq_ok_iff.mp hwalk with hspot | ⟨_, _, _, _, -, hlink, -⟩
  · obtain ⟨hplace, hnode⟩ := place_of_walkNames ht hup hspot
    rw [hnames, List.nil_append] at hplace
    exact ⟨hplace, hnode⟩
  · exact absurd hlink (walkNames_ne_link ht)

/-! ## Files -/

/-- Whether there is a file at a place. -/
def holdsFile (t : FileTree) (place : Place) : Bool := ((t.node? place).map Node.isFile).getD false

/-- The places of all files. -/
def files (t : FileTree) : List Place := (t.nodes.map Prod.fst).dedup.filter t.holdsFile

theorem mem_files : place ∈ t.files ↔ t.holdsFile place := by
  rw [files, List.mem_filter, List.mem_dedup, and_iff_right_of_imp]
  intro h
  unfold holdsFile node? at h
  split at h
  · cases h
  · cases hnode : t.nodes.lookup place with
    | none =>
      rw [hnode] at h
      cases h
    | some node =>
      obtain ⟨before, after, hnodes, -⟩ := List.lookup_eq_some_iff.mp hnode
      rw [hnodes]
      exact List.mem_map_of_mem (List.mem_append_right before List.mem_cons_self)

/-- A canonical path that leads to a file has its names as the place of one. -/
theorem mem_files_of_stat (ht : t.Unlinked) (hp : p.Canonical) (hs : t.stat p = .ok (place, node))
    (hfile : node.isFile) : p.names ∈ t.files ∧ p.names ≠ [] := by
  obtain ⟨rfl, hnode | ⟨m, rfl⟩⟩ := place_of_stat ht hp hs
  · refine ⟨mem_files.mpr ?_, fun hnil => ?_⟩
    · rw [holdsFile, hnode]
      exact hfile
    · rw [hnil, node?, if_pos rfl] at hnode
      cases hnode
      cases hfile
  · cases hfile

theorem mem_files_of_isFile (ht : t.Unlinked) (hp : p.Canonical) (hf : t.isFile p) :
    p.names ∈ t.files := by
  unfold isFile at hf
  split at hf
  · next hs => exact (mem_files_of_stat ht hp hs rfl).1
  · cases hf

/-- What is read at a canonical path stands in the file at the place of its names. -/
theorem file_of_readText {text : String} (ht : t.Unlinked) (hp : p.Canonical)
    (hr : t.readText p = .ok text) : p.names ∈ t.files ∧ p.names ≠ [] ∧
      ∃ bytes m mode, t.node? p.names = some (.file bytes m mode) ∧
        Text.decode bytes = some text := by
  unfold readText readBytes at hr
  cases hs : t.stat p with
  | error cause =>
    rw [hs] at hr
    cases hr
  | ok found =>
    obtain ⟨place, node⟩ := found
    rw [hs] at hr
    cases node with
    | file bytes m mode =>
      obtain ⟨hmem, hne⟩ := mem_files_of_stat ht hp hs rfl
      obtain ⟨rfl, hnode | ⟨_, hdir⟩⟩ := place_of_stat ht hp hs
      · refine ⟨hmem, hne, bytes, m, mode, hnode, ?_⟩
        cases hdecode : Text.decode bytes with
        | none =>
          simp only [bind, Except.bind, pure, Except.pure, hdecode] at hr
          cases hr
        | some s =>
          simp only [bind, Except.bind, pure, Except.pure, hdecode] at hr
          cases hr
          rfl
      · cases hdir
    | dir m => cases hr
    | link target => cases hr

/-- Under all spellings of its canonical path the same is read in a file. -/
theorem readText_unique {q : Path} {text text' : String} (ht : t.Unlinked) (hp : p.Canonical)
    (hq : q.Canonical) (hnames : p.names = q.names) (hr : t.readText p = .ok text)
    (hr' : t.readText q = .ok text') : text = text' := by
  obtain ⟨-, -, bytes, _, _, hnode, hdecode⟩ := file_of_readText ht hp hr
  obtain ⟨-, -, bytes', _, _, hnode', hdecode'⟩ := file_of_readText ht hq hr'
  rw [hnames] at hnode
  cases hnode.symm.trans hnode'
  exact Option.some.inj (hdecode.symm.trans hdecode')

/-- What can be read has a directory above it. -/
theorem parent_of_readText {text : String} (ht : t.Unlinked) (hp : p.Canonical)
    (hr : t.readText p = .ok text) : ∃ d, p.parent = some d := by
  cases hparent : p.parent with
  | some d => exact ⟨d, rfl⟩
  | none => exact absurd (hp.names_of_parent hparent) (file_of_readText ht hp hr).2.1

end FileTree
end LoadHook
