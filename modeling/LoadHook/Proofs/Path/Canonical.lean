import LoadHook.Proofs.Path.Map
import LoadHook.Proofs.Path.Pieces

/-!
# Canonical paths

A path is canonical if it is absolute and has no `..` in it. These are the absolute paths that
have the components of their own normal form, and every absolute path has a canonical normal
form. Cutting off the last component and taking a path without `..` from a canonical one leads
to canonical paths again.
-/
namespace LoadHook.Path

variable {p q : Path} {s : Name} {c : Component} {cs ns : List Component}

/-- An absolute path without `..`. -/
structure Canonical (p : Path) : Prop where
  absolute : p.isAbsolute
  straight : ['.', '.'] ∉ p.pieces

/-- A component that is a name. -/
def IsName (c : Component) : Prop :=
  ∃ s, c = .normal s ∧ s ≠ [] ∧ s ≠ ['.'] ∧ s ≠ ['.', '.'] ∧ '/' ∉ s

theorem components_of_absolute (h : p.isAbsolute) :
    p.components = .root :: p.pieces.filterMap Component.ofPiece := by
  simp [components, h]

/-- A piece adds nothing, leads up, or is a name. -/
theorem isName_of_ofPiece (hs : '/' ∉ s) (h : Component.ofPiece s = some c) :
    c = .parent ∧ s = ['.', '.'] ∨ IsName c := by
  unfold Component.ofPiece at h
  split at h
  · cases h
  · next hvoid =>
    split at h
    · next hup =>
      cases h
      exact .inl ⟨rfl, hup⟩
    · next hup =>
      cases h
      simp only [Bool.or_eq_true, decide_eq_true_eq, not_or] at hvoid
      exact .inr ⟨s, rfl, hvoid.1, hvoid.2, hup, hs⟩

theorem ofPiece_piece (h : IsName c) : Component.ofPiece c.piece = some c := by
  obtain ⟨s, rfl, hempty, hdot, hup, -⟩ := h
  simp [Component.piece, Component.ofPiece, hempty, hdot, hup]

theorem ofPiece_ne_root (s : Name) : Component.ofPiece s ≠ some .root := by
  unfold Component.ofPiece
  split
  · simp
  · split <;> simp

/-- Only absolute paths begin at the root. -/
theorem root_mem_components : .root ∈ p.components ↔ p.isAbsolute := by
  refine ⟨fun h => ?_, fun h => by simp [components_of_absolute h]⟩
  cases hp : p.isAbsolute with
  | true => rfl
  | false =>
    simp only [components, hp, Bool.false_eq_true, if_false] at h
    cases hs : p.pieces with
    | nil => simp [hs] at h
    | cons s rest =>
      simp only [hs, List.mem_append, List.mem_filterMap] at h
      rcases h with h | ⟨t, -, ht⟩
      · split at h
        · simp at h
        · exact absurd (Option.mem_toList.mp h) (ofPiece_ne_root s)
      · exact absurd ht (ofPiece_ne_root t)

/-- Whether a path is canonical is told by its components. -/
theorem canonical_iff : Canonical p ↔ .root ∈ p.components ∧ .parent ∉ p.components := by
  rw [root_mem_components]
  refine ⟨fun h => ⟨h.absolute, fun hup => ?_⟩, fun ⟨h, hup⟩ => ⟨h, fun hs => hup ?_⟩⟩
  · rw [components_of_absolute h.absolute] at hup
    simp only [List.mem_cons, reduceCtorEq, List.mem_filterMap, false_or] at hup
    obtain ⟨s, hs, hsc⟩ := hup
    rcases isName_of_ofPiece (not_mem_of_mem_pieces hs) hsc with ⟨-, rfl⟩ | ⟨t, ht, -⟩
    · exact h.straight hs
    · cases ht
  · rw [components_of_absolute h]
    exact List.mem_cons_of_mem _ (List.mem_filterMap.mpr ⟨_, hs, rfl⟩)

theorem Canonical.congr (hp : Canonical p) (h : p.same q) : Canonical q := by
  rw [canonical_iff, ← same_iff.mp h]
  exact canonical_iff.mp hp

/-! ## Normal forms -/

/-- The components of an absolute path lead up or are names. -/
theorem up_or_isName (hc : c ∈ p.pieces.filterMap Component.ofPiece) : c = .parent ∨ IsName c := by
  obtain ⟨s, hs, hsc⟩ := List.mem_filterMap.mp hc
  exact (isName_of_ofPiece (not_mem_of_mem_pieces hs) hsc).imp_left And.left

/-- Below the root every component leaves names. -/
theorem foldl_push (ns : List Component) (hns : ∀ c ∈ ns, IsName c)
    (hcs : ∀ c ∈ cs, c = .parent ∨ IsName c) :
    ∃ ms, cs.foldl push (ns ++ [.root]) = ms ++ [.root] ∧ ∀ c ∈ ms, IsName c := by
  induction cs generalizing ns with
  | nil => exact ⟨ns, rfl, hns⟩
  | cons c cs ih =>
    have hrest : ∀ c ∈ cs, c = .parent ∨ IsName c := fun d hd => hcs d (List.mem_cons_of_mem c hd)
    rcases hcs c List.mem_cons_self with rfl | hc
    · cases ns with
      | nil => exact ih [] (by simp) hrest
      | cons n ns =>
        obtain ⟨s, rfl, -⟩ := hns n List.mem_cons_self
        exact ih ns (fun d hd => hns d (List.mem_cons_of_mem _ hd)) hrest
    · obtain ⟨s, rfl, hs⟩ := hc
      refine ih (.normal s :: ns) (fun d hd => ?_) hrest
      rcases List.mem_cons.mp hd with rfl | hd
      · exact ⟨s, rfl, hs⟩
      · exact hns d hd

/-- Names are kept as they are. -/
theorem foldl_push_names (hcs : ∀ c ∈ cs, IsName c) (ds : List Component) :
    cs.foldl push ds = cs.reverse ++ ds := by
  induction cs generalizing ds with
  | nil => rfl
  | cons c cs ih =>
    obtain ⟨s, rfl, -⟩ := hcs c List.mem_cons_self
    rw [List.foldl_cons, push_normal, ih fun d hd => hcs d (List.mem_cons_of_mem _ hd)]
    simp

theorem filterMap_piece (hns : ∀ c ∈ ns, IsName c) :
    (ns.map Component.piece).filterMap Component.ofPiece = ns := by
  induction ns with
  | nil => rfl
  | cons c ns ih =>
    rw [List.map_cons, List.filterMap_cons_some (ofPiece_piece (hns c List.mem_cons_self)),
      ih fun d hd => hns d (List.mem_cons_of_mem c hd)]

/-- The path of names below the root has these components. -/
theorem components_render (hns : ∀ c ∈ ns, IsName c) :
    (render (.root :: ns)).components = .root :: ns := by
  have hpieces : ∀ s ∈ ns.map Component.piece, '/' ∉ s := by
    intro s hs
    obtain ⟨c, hc, rfl⟩ := List.mem_map.mp hs
    obtain ⟨t, rfl, -, -, -, ht⟩ := hns c hc
    exact ht
  rw [render, components_of_absolute rfl, pieces_cons]
  cases ns with
  | nil => rfl
  | cons n rest => rw [segments_joinSegments (by simp) hpieces, filterMap_piece hns]

theorem normalComponents_of_absolute (h : p.isAbsolute) :
    ∃ ns, p.normalComponents = .root :: ns ∧ ∀ c ∈ ns, IsName c := by
  obtain ⟨ms, hms, hnames⟩ := foldl_push [] (by simp) fun c => up_or_isName (p := p)
  refine ⟨ms.reverse, ?_, by simpa using hnames⟩
  have hpush : [Component.root] = push [] .root := rfl
  rw [normalComponents, components_of_absolute h, List.foldl_cons, ← hpush]
  simpa using congrArg List.reverse hms

/-- The normal form of an absolute path is canonical. -/
theorem canonical_normalize (h : p.isAbsolute) : Canonical p.normalize := by
  obtain ⟨ns, hns, hnames⟩ := normalComponents_of_absolute h
  rw [canonical_iff, normalize, hns, components_render hnames]
  refine ⟨List.mem_cons_self, fun hup => ?_⟩
  rcases List.mem_cons.mp hup with hup | hup
  · cases hup
  · obtain ⟨s, hs, -⟩ := hnames _ hup
    cases hs

/-- A canonical path has the components of its normal form. -/
theorem Canonical.same_normalize (h : Canonical p) : p.normalize.same p := by
  have hup := (canonical_iff.mp h).2
  rw [components_of_absolute h.absolute] at hup
  have hnames : ∀ c ∈ p.pieces.filterMap Component.ofPiece, IsName c := by
    intro c hc
    refine (up_or_isName hc).resolve_left fun e => hup ?_
    exact List.mem_cons_of_mem _ (e ▸ hc)
  have hnormal : p.normalComponents = .root :: p.pieces.filterMap Component.ofPiece := by
    rw [normalComponents, components_of_absolute h.absolute, List.foldl_cons,
      foldl_push_names hnames]
    simp [push]
  rw [same_iff, normalize, hnormal, components_render hnames, components_of_absolute h.absolute]

/-- The canonical paths are the absolute paths that are their own normal form. -/
theorem canonical_iff_normal : Canonical p ↔ p.isAbsolute ∧ p.normalize.same p :=
  ⟨fun h => ⟨h.absolute, h.same_normalize⟩, fun ⟨h, hs⟩ => (canonical_normalize h).congr hs⟩

/-! ## Going up and down -/

theorem canonical_join (hp : Canonical p) (hq : q.isAbsolute = false)
    (hup : ['.', '.'] ∉ q.pieces) :
    Canonical (p / q) := by
  obtain ⟨habs, hpieces⟩ := mem_pieces_join hp.absolute hq
  refine ⟨habs, fun hs => ?_⟩
  rcases hpieces _ hs with hs | hs
  · exact hp.straight hs
  · exact hup hs

theorem mem_go {index : Nat} {ps : List Name} (hs : s ∈ dropVoid.go true index ps) : s ∈ ps := by
  induction ps generalizing index with
  | nil => simp [dropVoid.go] at hs
  | cons t rest ih =>
    unfold dropVoid.go at hs
    split at hs
    · split at hs
      · cases hs
      · rw [List.mem_singleton.mp hs]
        exact List.mem_cons_self
    · rcases List.mem_cons.mp hs with rfl | hs
      · exact List.mem_cons_self
      · exact List.mem_cons_of_mem t (ih hs)

theorem mem_dropVoid {ps : List Name} (hs : s ∈ dropVoid true ps) : s ∈ ps := by
  cases ps with
  | nil => exact hs
  | cons t rest => exact mem_go hs

/-- The directory of a canonical path is canonical. -/
theorem Canonical.parent (hp : Canonical p) (h : p.parent = some q) : Canonical q := by
  have hdrop : ∀ s, s ∈ dropVoid true (dropVoid true p.pieces).dropLast → s ∈ p.pieces :=
    fun s hs => mem_dropVoid (List.dropLast_subset _ (mem_dropVoid hs))
  simp only [Path.parent, hp.absolute] at h
  split at h
  · cases h
  · cases h
    refine ⟨rfl, fun hup => ?_⟩
    rcases mem_pieces_ofPieces (fun s hs => not_mem_of_mem_pieces (hdrop s hs)) hup with hup | hup
    · cases hup
    · exact hp.straight (hdrop _ hup)

theorem Canonical.ancestorsUpTo {n : Nat} (hp : Canonical p) (h : q ∈ p.ancestorsUpTo n) :
    Canonical q := by
  induction n generalizing p with
  | zero => rwa [List.mem_singleton.mp h]
  | succ n ih =>
    unfold Path.ancestorsUpTo at h
    split at h
    · rwa [List.mem_singleton.mp h]
    · next r hr =>
      rcases List.mem_cons.mp h with rfl | h
      · exact hp
      · exact ih (hp.parent hr) h

/-- All directories above a canonical path are canonical. -/
theorem Canonical.ancestors (hp : Canonical p) (h : q ∈ p.ancestors) : Canonical q :=
  hp.ancestorsUpTo h

end LoadHook.Path
