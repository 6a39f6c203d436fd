import LoadHook.Proofs.Path.Normal
import Mathlib.Logic.Relation

/-!
# Spellings of a path

Two texts have the same components exactly if they can be respelled into one another: by repeating
a separator, by a `.` between two separators, and by a separator or a separator and a `.` at the
end. So what tells paths apart is the root, a `.` that begins a relative path, and the moves, each
`..` among them.
-/
namespace LoadHook.Path

open Relation (EqvGen ReflTransGen)

variable {p q : Path} {s : Name} {rest : List Name} {c : Component} {front cs ds : List Char}

/-! ## What tells paths apart -/

/-- Whether a path begins with a `.` of its own. -/
def isDotted (p : Path) : Bool := (segments p.chars).head? == some ['.']

/-- The components that stand before the moves are the root or a `.`. -/
theorem components_eq (p : Path) :
    p.components = start p.isAbsolute ++ (if p.isDotted then [.current] else []) ++ p.moves := by
  have hchars := segments_chars p
  cases hp : p.isAbsolute with
  | true =>
    rw [hp, if_pos rfl] at hchars
    have hdotted : p.isDotted = false := by simp [isDotted, hchars]
    rw [components_eq_moves (.inl hp), hdotted, hp]
    rfl
  | false =>
    rw [hp, if_neg (by simp)] at hchars
    simp only [components, hp, isDotted, hchars, moves, start, Bool.false_eq_true, if_false,
      List.nil_append]
    cases p.pieces with
    | nil => rfl
    | cons s rest =>
      by_cases hs : s = ['.']
      · simp [hs, Component.ofPiece]
      · cases hc : Component.ofPiece s <;> simp [hs, hc]

theorem current_mem_components : .current ∈ p.components ↔ p.isDotted := by
  have hmoves : .current ∉ p.moves := fun h => by
    rcases up_or_isName h with h | ⟨s, h, -⟩ <;> cases h
  rw [components_eq, List.mem_append, List.mem_append, or_iff_left hmoves, start]
  cases p.isAbsolute <;> cases p.isDotted <;> simp

/-- Paths are the same if they begin alike and have the same moves. -/
theorem same_iff_start_moves :
    p.same q ↔ p.isAbsolute = q.isAbsolute ∧ p.isDotted = q.isDotted ∧ p.moves = q.moves := by
  rw [same_iff]
  constructor
  · intro h
    have habsolute : p.isAbsolute = q.isAbsolute := by
      rw [Bool.eq_iff_iff, ← root_mem_components, ← root_mem_components, h]
    have hdotted : p.isDotted = q.isDotted := by
      rw [Bool.eq_iff_iff, ← current_mem_components, ← current_mem_components, h]
    rw [components_eq, components_eq, habsolute, hdotted, List.append_cancel_left_eq] at h
    exact ⟨habsolute, hdotted, h⟩
  · rintro ⟨habsolute, hdotted, hmoves⟩
    rw [components_eq, components_eq, habsolute, hdotted, hmoves]

/-! ## Leaving out what adds nothing -/

/-- A text sheds what adds nothing: one of two separators, a `.` after a separator, or the separator
at its end. -/
inductive Sheds : List Char → List Char → Prop
  | repeated (front back : List Char) : Sheds (front ++ '/' :: '/' :: back) (front ++ '/' :: back)
  | inner (front back : List Char) :
    Sheds (front ++ '/' :: '.' :: '/' :: back) (front ++ '/' :: back)
  | dot (front : List Char) : Sheds (front ++ ['/', '.']) (front ++ ['/'])
  | last (front : List Char) (h : front ≠ []) : Sheds (front ++ ['/']) front

/-- A text has its first piece from what stands before a separator. -/
theorem isDotted_append (front cs : List Char) :
    isDotted ⟨front ++ '/' :: cs⟩ = isDotted ⟨front⟩ := by
  obtain ⟨s, rest, hfront⟩ := List.exists_cons_of_ne_nil (segments_ne_nil front)
  simp [isDotted, segments_append_cons, hfront]

theorem isAbsolute_append_cons (front cs : List Char) :
    isAbsolute ⟨front ++ '/' :: cs⟩ = (front.isEmpty || isAbsolute ⟨front⟩) := by
  cases front <;> simp [isAbsolute]

theorem moves_append (front cs : List Char) :
    moves ⟨front ++ '/' :: cs⟩ = moves ⟨front⟩ ++ moves ⟨cs⟩ := by
  rw [moves_eq, moves_eq, moves_eq, segments_append_cons, List.filterMap_append]

/-- Behind a separator nothing but the moves tells paths apart. -/
theorem same_append (front : List Char) (h : moves ⟨cs⟩ = moves ⟨ds⟩) :
    Path.same ⟨front ++ '/' :: cs⟩ ⟨front ++ '/' :: ds⟩ := by
  rw [same_iff_start_moves, isAbsolute_append_cons, isAbsolute_append_cons, isDotted_append,
    isDotted_append, moves_append, moves_append, h]
  exact ⟨rfl, rfl, rfl⟩

theorem Sheds.same (h : Sheds cs ds) : Path.same ⟨cs⟩ ⟨ds⟩ := by
  cases h with
  | repeated front back => exact same_append front (moves_append [] back)
  | inner front back => exact same_append front (moves_append ['.'] back)
  | dot front => exact same_append front rfl
  | last _ hfront =>
    rw [same_iff_start_moves, isAbsolute_append_cons, isDotted_append, moves_append,
      List.isEmpty_eq_false_iff.mpr hfront]
    exact ⟨rfl, rfl, List.append_nil _⟩

/-! ## The plain spelling -/

/-- The pieces that are moves. -/
def kept (ps : List Name) : List Name := ps.filter fun s => s ≠ [] ∧ s ≠ ['.']

theorem piece_moves (p : Path) : p.moves.map Component.piece = kept p.pieces := by
  have hkept : p.moves = (kept p.pieces).filterMap Component.ofPiece := by
    rw [moves, kept, List.filterMap_filter]
    congr 1
    funext s
    by_cases h : s = [] ∨ s = ['.']
    · rcases h with rfl | rfl <;> rfl
    · rw [not_or] at h
      simp [h]
  rw [hkept, map_piece_filterMap fun s hs => by simpa [kept] using (List.mem_filter.mp hs).2]

/-- The path with its beginning and its moves, and nothing else. -/
def plain (p : Path) : Path :=
  ofPieces p.isAbsolute ((if p.isDotted then [['.']] else []) ++ p.moves.map Component.piece)

/-- Pieces with a separator before each. -/
def trail (ps : List Name) : List Char := ps.flatMap ('/' :: ·)

theorem joinSegments_cons (s : Name) (rest : List Name) :
    joinSegments (s :: rest) = s ++ trail rest := by
  induction rest generalizing s with
  | nil => simp [joinSegments, trail]
  | cons t rest ih => rw [joinSegments, ih]; rfl

theorem eq_append_trail (hs : segments cs = s :: rest) : cs = s ++ trail rest := by
  rw [← joinSegments_cons, ← hs, joinSegments_segments]

/-- A text that is left with its first piece and its moves. The root keeps its separator. -/
def settled (front : List Char) (ps : List Name) : List Char :=
  if front = [] ∧ ps = [] then ['/'] else front ++ trail ps

/-- What adds nothing is shed before a separator, -/
theorem sheds_before (front cs : List Char) (hs : s = [] ∨ s = ['.']) :
    Sheds (front ++ '/' :: (s ++ '/' :: cs)) (front ++ '/' :: cs) := by
  rcases hs with rfl | rfl
  · exact .repeated front cs
  · exact .inner front cs

/-- and at the end. -/
theorem sheds_end (front : List Char) (hs : s = [] ∨ s = ['.']) :
    ReflTransGen Sheds (front ++ '/' :: s) (settled front []) := by
  have hslash : ReflTransGen Sheds (front ++ '/' :: s) (front ++ ['/']) := by
    rcases hs with rfl | rfl
    · exact .refl
    · exact .single (.dot front)
  by_cases hfront : front = []
  · simpa [settled, hfront] using hslash
  · simpa [settled, hfront, trail] using hslash.tail (.last front hfront)

theorem sheds_trail (front : List Char) (rest : List Name) (h : front ≠ [] ∨ rest ≠ []) :
    ReflTransGen Sheds (front ++ trail rest) (settled front (kept rest)) := by
  induction rest generalizing front with
  | nil =>
    have hfront := h.resolve_right (by simp)
    simp only [kept, List.filter_nil, settled, hfront, false_and, if_false]
    exact .refl
  | cons t rest ih =>
    by_cases ht : t = [] ∨ t = ['.']
    · have hkept : kept (t :: rest) = kept rest := by rcases ht with rfl | rfl <;> rfl
      rw [hkept]
      cases rest with
      | nil => simpa [trail, kept] using sheds_end front ht
      | cons u more =>
        exact .head (sheds_before front (u ++ trail more) ht) (ih front (.inr (by simp)))
    · -- A move goes to what stands in front.
      rw [not_or] at ht
      have hmove := ih (front ++ '/' :: t) (.inl (by simp))
      have hkept : kept (t :: rest) = t :: kept rest := by simp [kept, ht]
      simpa [hkept, settled, trail] using hmove

/-- The plain spelling is what is left with the first piece of a text. -/
theorem chars_plain (hs : segments p.chars = s :: rest) (hp : p.chars ≠ []) :
    p.plain.chars = settled s (kept rest) := by
  have hchars := segments_chars p
  have htext := eq_append_trail hs
  rw [plain, ofPieces, piece_moves, isDotted, hs]
  cases habsolute : p.isAbsolute with
  | true =>
    rw [habsolute, if_pos rfl, hs] at hchars
    obtain ⟨rfl, rfl⟩ := List.cons.inj hchars
    cases hkept : kept p.pieces with
    | nil => rfl
    | cons t more => simp [settled, trail, joinSegments_cons]
  | false =>
    rw [habsolute, if_neg (by simp), hs] at hchars
    have hne : s ≠ [] := by
      rintro rfl
      cases rest with
      | nil => exact hp htext
      | cons t more => simp [isAbsolute, htext, trail] at habsolute
    have hsettled : settled s (kept rest) = joinSegments (s :: kept rest) := by
      simp [settled, hne, joinSegments_cons]
    rw [← hchars, hsettled]
    by_cases hdot : s = ['.']
    · simp [hdot, kept]
    · simp [hdot, hne, kept]

/-- What is left of a path is its plain spelling. -/
theorem sheds_plain (p : Path) : ReflTransGen Sheds p.chars p.plain.chars := by
  by_cases hp : p.chars = []
  · obtain ⟨chars⟩ := p
    obtain rfl : chars = [] := hp
    exact .refl
  · obtain ⟨s, rest, hs⟩ := List.exists_cons_of_ne_nil (segments_ne_nil p.chars)
    have htext := eq_append_trail hs
    have hne : s ≠ [] ∨ rest ≠ [] := by
      refine Decidable.not_and_iff_not_or_not.mp ?_
      rintro ⟨rfl, rfl⟩
      exact hp htext
    rw [chars_plain hs hp, htext]
    exact sheds_trail s rest hne

/-- The texts of the same path are those that can be respelled into one another. -/
theorem same_iff_eqvGen : p.same q ↔ EqvGen Sheds p.chars q.chars := by
  constructor
  · intro h
    obtain ⟨habsolute, hdotted, hmoves⟩ := same_iff_start_moves.mp h
    have hplain : p.plain = q.plain := by rw [plain, plain, habsolute, hdotted, hmoves]
    have hp := Relation.EqvGen.reflTransGen_le_eqvGen _ _ _ (sheds_plain p)
    have hq := Relation.EqvGen.reflTransGen_le_eqvGen _ _ _ (sheds_plain q)
    exact hp.trans _ _ _ (hplain ▸ hq.symm _ _)
  · intro h
    have hsame : ∀ cs ds, EqvGen Sheds cs ds → Path.same ⟨cs⟩ ⟨ds⟩ := by
      intro cs ds h
      induction h with
      | rel _ _ h => exact h.same
      | refl cs => exact same_refl _
      | symm _ _ _ ih => exact same_symm ih
      | trans _ _ _ _ _ ih ih' => exact same_trans ih ih'
    exact hsame _ _ h

end LoadHook.Path
