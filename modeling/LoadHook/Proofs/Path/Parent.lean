import LoadHook.Proofs.Path.Map
import LoadHook.Proofs.Path.Normal
import LoadHook.Proofs.Path.Pieces

/-!
# The directories above a path

The directory above a path has a shorter text. So the list of a path and the directories above it
goes on until there is no directory above, whatever bound it is computed with. The directory of a
name taken from a path is that path again, without what adds nothing at its end. The directory above
a path has nothing at its end that could be dropped, so a name taken from it is in just this
directory.
-/
namespace LoadHook.Path

/-! ## All directories above -/

section Above

variable {p q : Path} {ps qs : List Name} {ds es : List Path} {absolute : Bool}

theorem prefix_go (ps : List Name) (index : Nat) : dropVoid.go absolute index ps <+: ps := by
  induction ps generalizing index with
  | nil => exact List.prefix_refl []
  | cons s rest ih =>
    unfold dropVoid.go
    split
    · split
      · exact List.nil_prefix
      · exact List.cons_prefix_cons.mpr ⟨rfl, List.nil_prefix⟩
    · exact List.cons_prefix_cons.mpr ⟨rfl, ih (index + 1)⟩

/-- What adds nothing is dropped at the end only. -/
theorem prefix_dropVoid (absolute : Bool) (ps : List Name) : dropVoid absolute ps <+: ps := by
  cases ps with
  | nil => exact List.prefix_refl []
  | cons s rest => exact prefix_go (s :: rest) 0

theorem prefix_joinSegments (h : ps <+: qs) : joinSegments ps <+: joinSegments qs := by
  induction ps generalizing qs with
  | nil => exact List.nil_prefix
  | cons s rest ih =>
    obtain ⟨more, rfl⟩ := h
    cases rest with
    | nil => cases more <;> simp [joinSegments]
    | cons t rest => simpa [joinSegments] using ih (List.prefix_append (t :: rest) more)

/-- Pieces at the end take room, be it that of the separator in front of them. -/
theorem length_joinSegments_lt (hne : ps ≠ []) (hqs : qs ≠ []) :
    (joinSegments ps).length < (joinSegments (ps ++ qs)).length := by
  induction ps with
  | nil => exact absurd rfl hne
  | cons s rest ih =>
    cases rest with
    | nil =>
      obtain ⟨t, more, rfl⟩ := List.exists_cons_of_ne_nil hqs
      simp [joinSegments]
    | cons t rest =>
      have hrest := ih (List.cons_ne_nil t rest)
      simpa [joinSegments] using hrest

theorem length_chars (p : Path) :
    p.chars.length = (if p.isAbsolute then 1 else 0) + (joinSegments p.pieces).length := by
  rw [pieces, joinSegments_segments]
  cases h : p.isAbsolute with
  | true =>
    rw [chars_of_absolute h, List.length_cons, if_pos rfl, Nat.add_comm]
  | false => simp [body, h]

theorem length_ofPieces (absolute : Bool) (ps : List Name) : (ofPieces absolute ps).chars.length =
    (if absolute then 1 else 0) + (joinSegments ps).length := by
  cases absolute <;> simp [ofPieces, Nat.add_comm]

/-- The directory above a path has a shorter text. -/
theorem length_parent_lt (h : p.parent = some q) : q.chars.length < p.chars.length := by
  unfold Path.parent at h
  split at h
  · cases h
  · next hkept =>
    cases h
    rw [length_ofPieces, length_chars p]
    refine Nat.add_lt_add_left ?_ _
    obtain ⟨more, hmore⟩ := prefix_dropVoid p.isAbsolute p.pieces
    generalize hps : dropVoid p.isAbsolute p.pieces = ps at hmore hkept
    obtain ⟨front, last, rfl⟩ : ∃ front last, ps = front ++ [last] :=
      ⟨_, _, (List.dropLast_concat_getLast hkept).symm⟩
    rw [List.dropLast_concat]
    refine Nat.lt_of_le_of_lt (prefix_joinSegments (prefix_dropVoid _ front)).length_le ?_
    rw [← hmore, List.append_assoc]
    by_cases hfront : front = []
    · -- the only piece that is kept is not empty, or there are more behind it
      subst hfront
      cases more with
      | cons t more => cases last <;> simp [joinSegments]
      | nil =>
        cases last with
        | cons c cs => simp [joinSegments]
        | nil =>
          rw [← hmore] at hps
          simp [dropVoid, dropVoid.go, isVoid] at hps
    · exact length_joinSegments_lt hfront (by simp)

/-- A path and the directories above it, the nearest first. -/
inductive Upward : Path → List Path → Prop
  | top {p : Path} (h : p.parent = none) : Upward p [p]
  | up {p q : Path} {ds : List Path} (h : p.parent = some q) (above : Upward q ds) :
    Upward p (p :: ds)

theorem Upward.unique (hd : Upward p ds) (he : Upward p es) : ds = es := by
  induction hd generalizing es with
  | top h =>
    cases he with
    | top _ => rfl
    | up h' _ => exact absurd (h.symm.trans h') (by simp)
  | up h _ ih =>
    cases he with
    | top h' => exact absurd (h'.symm.trans h) (by simp)
    | up h' above =>
      cases h.symm.trans h'
      rw [ih above]

theorem upward_ancestorsUpTo {n : Nat} (hn : p.chars.length ≤ n) :
    Upward p (p.ancestorsUpTo n) := by
  induction n generalizing p with
  | zero =>
    rw [ancestorsUpTo]
    cases h : p.parent with
    | none => exact .top h
    | some q => exact absurd (length_parent_lt h) (by omega)
  | succ n ih =>
    rw [ancestorsUpTo]
    split
    · next h => exact .top h
    · next q h =>
      have hlt := length_parent_lt h
      exact .up h (ih (by omega))

/-- The directories above a path are all found. -/
theorem upward_ancestors (p : Path) : Upward p p.ancestors :=
  upward_ancestorsUpTo (Nat.le_refl _)

end Above

/-! ## Absolute directories -/

section Absolute

variable {p q d here : Path} {ds : List Path}

/-- The directory above a path is absolute if the path is. -/
theorem isAbsolute_parent (h : p.parent = some q) : q.isAbsolute = p.isAbsolute := by
  unfold Path.parent at h
  split at h
  · cases h
  · cases h
    cases hp : p.isAbsolute with
    | true => rfl
    | false =>
      have hkept := (prefix_dropVoid false _).trans
        ((List.dropLast_prefix _).trans (prefix_dropVoid false p.pieces))
      have hchars : p.chars = joinSegments p.pieces := by
        have hself := ofPieces_pieces p
        rw [hp] at hself
        exact congrArg Path.chars hself.symm
      -- the text that is kept begins as the path does
      obtain ⟨more, hmore⟩ := prefix_joinSegments hkept
      rw [← hchars] at hmore
      have hhead : p.chars.head? ≠ some '/' := by simpa [isAbsolute] using hp
      simp only [isAbsolute, ofPieces, Bool.false_eq_true, if_false, beq_eq_false_iff_ne]
      intro hslash
      rw [← hmore, List.head?_append, hslash] at hhead
      exact hhead rfl

theorem Upward.isAbsolute (h : Upward p ds) (hq : q ∈ ds) : q.isAbsolute = p.isAbsolute := by
  induction h with
  | top _ => rw [List.mem_singleton.mp hq]
  | up hparent _ ih =>
    rcases List.mem_cons.mp hq with rfl | hq
    · rfl
    · rw [ih hq, isAbsolute_parent hparent]

theorem isAbsolute_ancestors (h : q ∈ p.ancestors) : q.isAbsolute = p.isAbsolute :=
  (upward_ancestors p).isAbsolute h

theorem Upward.mem (h : Upward p ds) : p ∈ ds := by
  cases h <;> simp

/-! ## Taking a path from a directory -/

theorem same_iff_moves (hp : p.isAbsolute) (hq : q.isAbsolute) : p.same q ↔ p.moves = q.moves := by
  rw [same_iff, components_eq_moves (.inl hp), components_eq_moves (.inl hq), hp, hq,
    List.append_cancel_left_eq]

/-- From a directory `d` a path is the same as from the directory that `d` itself is taken from,
if it is absolute, or there is no difference between the two directories, and then only. -/
theorem same_join_iff (hhere : here.isAbsolute) :
    ((here / d) / p).same (here / p) ↔ p.isAbsolute ∨ (here / d).same here := by
  have hd : (here / d).isAbsolute := isAbsolute_join hhere d
  cases hp : p.isAbsolute with
  | true =>
    have hjoin (q : Path) : q / p = p := if_pos hp
    rw [hjoin, hjoin]
    simp
  | false =>
    rw [same_iff_moves (isAbsolute_join hd p) (isAbsolute_join hhere p), (moves_join hp).2,
      (moves_join hp).2, List.append_cancel_right_eq, same_iff_moves hd hhere]
    simp

end Absolute

/-! ## What adds nothing -/

section Void

variable {p q : Path} {s : Name} {ps : List Name} {absolute : Bool} {index : Nat}

theorem go_concat_void (h : ∀ n, isVoid absolute n s) :
    dropVoid.go absolute index (ps ++ [s]) = dropVoid.go absolute index ps := by
  induction ps generalizing index with
  | nil => simp [dropVoid.go, h]
  | cons t rest ih => rw [List.cons_append, dropVoid.go, dropVoid.go, ih]

theorem dropVoid_eq_go (absolute : Bool) (ps : List Name) :
    dropVoid absolute ps = dropVoid.go absolute 0 ps := by
  cases ps <;> rfl

/-- Nothing behind the last separator adds nothing. -/
theorem dropVoid_concat_nil (absolute : Bool) (ps : List Name) :
    dropVoid absolute (ps ++ [[]]) = dropVoid absolute ps := by
  rw [dropVoid_eq_go, dropVoid_eq_go, go_concat_void fun n => rfl]

theorem go_concat (h : ∀ n, isVoid absolute n s = false) :
    dropVoid.go absolute index (ps ++ [s]) = ps ++ [s] := by
  induction ps generalizing index with
  | nil => simp [dropVoid.go, h]
  | cons t rest ih =>
    rw [List.cons_append, dropVoid.go, ih]
    split
    · next hnil => simp at hnil
    · rfl

theorem go_go (ps : List Name) (index : Nat) :
    dropVoid.go absolute index (dropVoid.go absolute index ps) =
      dropVoid.go absolute index ps := by
  induction ps generalizing index with
  | nil => rfl
  | cons t rest ih =>
    rw [dropVoid.go]
    split
    · by_cases hvoid : isVoid absolute index t <;> simp [dropVoid.go, hvoid]
    · next hkept =>
      rw [dropVoid.go, ih]
      split
      · next hnil => exact absurd hnil hkept
      · rfl

theorem dropVoid_dropVoid (absolute : Bool) (ps : List Name) :
    dropVoid absolute (dropVoid absolute ps) = dropVoid absolute ps := by
  simp only [dropVoid_eq_go, go_go]

/-! ## The directory of a name -/

/-- What can be the name of a directory entry. -/
structure IsEntry (s : Name) : Prop where
  nonempty : s ≠ []
  not_here : s ≠ ['.']
  not_up : s ≠ ['.', '.']
  single : '/' ∉ s

theorem IsEntry.not_void (h : IsEntry s) (n : Nat) : isVoid absolute n s = false := by
  simp [isVoid, h.nonempty, h.not_here]

theorem IsEntry.isAbsolute (h : IsEntry s) : (⟨s⟩ : Path).isAbsolute = false :=
  (pieces_of_not_mem h.single).1

/-- A path that is one name is the name of an entry. -/
theorem isEntry_of_components (h : p.components = [.normal p.chars]) : IsEntry p.chars := by
  have hname : p.fileName = some p.chars := by rw [fileName, h]; rfl
  have hslash : '/' ∉ p.chars := not_mem_of_mem_pieces (mem_pieces_of_fileName hname)
  obtain ⟨hrel, hpieces⟩ : p.isAbsolute = false ∧ p.pieces = [p.chars] := pieces_of_not_mem hslash
  have hpiece : p.chars ≠ ['.'] ∧ Component.ofPiece p.chars = some (.normal p.chars) := by
    simp only [components, hrel, hpieces, Bool.false_eq_true, if_false, List.filterMap_nil,
      List.append_nil] at h
    split at h
    · cases h
    · next hdot =>
      refine ⟨hdot, ?_⟩
      cases hc : Component.ofPiece p.chars with
      | none =>
        rw [hc] at h
        cases h
      | some c =>
        rw [hc] at h
        exact congrArg some (List.singleton_inj.mp h)
  refine ⟨fun hnil => ?_, hpiece.1, fun hup => ?_, hslash⟩
  · rw [hnil] at hpiece
    cases hpiece.2
  · rw [hup] at hpiece
    cases hpiece.2

/-- The directory of a name is the path that the name is taken from. -/
theorem parent_join (p : Path) (hs : IsEntry s) :
    (p / (⟨s⟩ : Path)).parent = some p.withoutVoid := by
  obtain ⟨front, hpieces, hfront⟩ := exists_pieces_join p hs.isAbsolute
  rw [(pieces_of_not_mem hs.single).2] at hpieces
  have hkept : dropVoid p.isAbsolute (front ++ [s]) = front ++ [s] := by
    rw [dropVoid_eq_go, go_concat fun n => hs.not_void n]
  have hsame : dropVoid p.isAbsolute front = dropVoid p.isAbsolute p.pieces := by
    rcases hfront with h | h
    · rw [h]
    · rw [h, dropVoid_concat_nil]
  rw [parent, (moves_join hs.isAbsolute).1, hpieces, hkept]
  split
  · next hnil => simp at hnil
  · rw [List.dropLast_concat, hsame, withoutVoid]

/-! ## Directories above -/

theorem withoutVoid_ofPieces (habs : (ofPieces absolute ps).isAbsolute = absolute)
    (hps : ∀ t ∈ ps, '/' ∉ t) (hkept : dropVoid absolute ps = ps) :
    (ofPieces absolute ps).withoutVoid = ofPieces absolute ps := by
  have hbody : (ofPieces absolute ps).body = joinSegments ps := by
    rw [body, habs]
    cases absolute <;> rfl
  rw [withoutVoid, habs, pieces, hbody]
  by_cases hnil : ps = []
  · subst hnil
    cases absolute <;> rfl
  · rw [segments_joinSegments hnil hps, hkept]

/-- Nothing at the end of the directory above a path could be dropped. -/
theorem withoutVoid_of_parent (h : p.parent = some q) : q.withoutVoid = q := by
  have habs := isAbsolute_parent h
  unfold parent at h
  split at h
  · cases h
  · cases h
    refine withoutVoid_ofPieces habs (fun t ht => ?_) (dropVoid_dropVoid _ _)
    have hmem := (List.dropLast_subset _ ((prefix_dropVoid _ _).subset ht))
    exact not_mem_of_mem_pieces ((prefix_dropVoid _ _).subset hmem)

/-- A name is in the directory that it is taken from, if that is above a path. -/
theorem parent_join_of_parent (h : p.parent = some q) (hs : IsEntry s) :
    (q / (⟨s⟩ : Path)).parent = some q := by
  rw [parent_join q hs, withoutVoid_of_parent h]

end Void

end LoadHook.Path
