import LoadHook.Proofs.Path.Canonical

/-!
# Normal forms of paths

The normal form of a path leads up at first, if the path is relative, and then along names. It is
written without superfluous pieces, and these are the only paths that are their own normal form.
Where a path leads further from another one, the other may be made normal before.
-/
namespace LoadHook.Path

variable {p q a b : Path} {s : Name} {ps qs : List Name} {absolute : Bool} {c : Component}
  {done ms : List Component}

/-! ## Joining pieces -/

theorem joinSegments_append (hps : ps ≠ []) (hqs : qs ≠ []) :
    joinSegments (ps ++ qs) = joinSegments ps ++ '/' :: joinSegments qs := by
  induction ps with
  | nil => exact absurd rfl hps
  | cons s rest ih =>
    cases rest with
    | nil =>
      obtain ⟨t, more, rfl⟩ := List.exists_cons_of_ne_nil hqs
      rfl
    | cons t rest =>
      have hrest := ih (List.cons_ne_nil t rest)
      rw [List.cons_append, List.cons_append, joinSegments, ← List.cons_append, hrest,
        joinSegments, List.append_assoc, List.cons_append]

theorem ofPieces_pieces (p : Path) : ofPieces p.isAbsolute p.pieces = p := by
  rw [ofPieces, pieces, joinSegments_segments]
  cases hp : p.isAbsolute with
  | true => exact congrArg mk (chars_of_absolute hp).symm
  | false => simp [body, hp]

/-- Pieces that can be told apart once they are joined. -/
def Solid (ps : List Name) : Prop := ∀ s ∈ ps, s ≠ [] ∧ '/' ∉ s

theorem isAbsolute_ofPieces (hps : Solid ps) : (ofPieces absolute ps).isAbsolute = absolute := by
  cases absolute with
  | true => rfl
  | false =>
    cases ps with
    | nil => rfl
    | cons s rest =>
      obtain ⟨hne, hs⟩ := hps s List.mem_cons_self
      obtain ⟨c, cs, rfl⟩ := List.exists_cons_of_ne_nil hne
      have hc : c ≠ '/' := by
        rintro rfl
        exact hs List.mem_cons_self
      cases rest <;> simp [ofPieces, joinSegments, isAbsolute, hc]

theorem pieces_ofPieces (hps : Solid ps) :
    (ofPieces absolute ps).pieces = if ps = [] then [[]] else ps := by
  have hbody : (ofPieces absolute ps).body = joinSegments ps := by
    rw [body, isAbsolute_ofPieces hps]
    cases absolute <;> rfl
  rw [pieces, hbody]
  split
  · next hnil =>
    subst hnil
    rfl
  · next hne => exact segments_joinSegments hne fun s hs => (hps s hs).2

/-! ## Single separators -/

/-- A text in which no separator follows another one, or stands at the end; but the root is one. -/
structure Single (p : Path) : Prop where
  apart : ¬ ['/', '/'] <:+: p.chars
  closed : p.chars.getLast? = some '/' → p.chars = ['/']

theorem single_of_pieces (h : p.pieces = [[]] ∨ [] ∉ p.pieces) : p.Single := by
  -- a piece with nothing in it is the only one
  have honly {x more : List Name} (hx : x ≠ []) (hcut : segments p.chars = x ++ [] :: more) :
      p.isAbsolute ∧ p.pieces = [[]] ∧ more = [] := by
    rw [segments_chars] at hcut
    cases hp : p.isAbsolute with
    | false =>
      simp only [hp, Bool.false_eq_true, if_false] at hcut
      have hempty := h.resolve_right (not_not_intro (hcut ▸ by simp))
      have hlength := congrArg List.length (hempty.symm.trans hcut)
      have hpos := List.length_pos_iff.mpr hx
      simp only [List.length_append, List.length_cons, List.length_nil] at hlength
      omega
    | true =>
      obtain ⟨s, rest, rfl⟩ := List.exists_cons_of_ne_nil hx
      simp only [hp, if_true, List.cons_append, List.cons.injEq] at hcut
      obtain ⟨-, hcut⟩ := hcut
      have hempty := h.resolve_right (not_not_intro (hcut ▸ by simp))
      refine ⟨rfl, hempty, ?_⟩
      have hlength := congrArg List.length (hempty.symm.trans hcut)
      simp only [List.length_append, List.length_cons, List.length_nil] at hlength
      exact List.eq_nil_of_length_eq_zero (by omega)
  constructor
  · rintro ⟨x, y, hxy⟩
    have hcut : segments p.chars = segments x ++ [] :: segments y := by
      rw [← hxy, List.append_assoc, List.cons_append, List.cons_append, List.nil_append,
        segments_append_cons, segments, if_pos rfl]
    exact segments_ne_nil y (honly (segments_ne_nil x) hcut).2.2
  · intro hlast
    obtain ⟨x, hx⟩ := List.getLast?_eq_some_iff.mp hlast
    have hcut : segments p.chars = segments x ++ [[]] := by rw [hx, segments_append_cons]; rfl
    obtain ⟨habs, hempty, -⟩ := honly (segments_ne_nil x) hcut
    rw [← ofPieces_pieces p, habs, hempty]
    rfl

theorem Single.pieces (h : p.Single) : p.pieces = [[]] ∨ [] ∉ p.pieces := by
  refine (Classical.em ([] ∈ p.pieces)).elim (fun hmem => .inl ?_) .inr
  obtain ⟨before, after, hcut⟩ := List.append_of_mem hmem
  -- what stands before the empty piece, with the separator of the root
  obtain ⟨front, hfront, hroot⟩ : ∃ front, segments p.chars = front ++ [] :: after ∧
      (front = [] → p.isAbsolute = false ∧ before = []) := by
    rw [segments_chars, hcut]
    cases hp : p.isAbsolute with
    | true => exact ⟨[] :: before, rfl, by simp⟩
    | false => exact ⟨before, rfl, fun hnil => ⟨rfl, hnil⟩⟩
  have hchars : p.chars = joinSegments (front ++ [] :: after) := by
    rw [← hfront, joinSegments_segments]
  by_cases hnil : front = []
  · obtain ⟨hrel, rfl⟩ := hroot hnil
    cases after with
    | nil => exact hcut
    | cons t more => simp [isAbsolute, hchars, hnil, joinSegments] at hrel
  · rw [joinSegments_append hnil (by simp)] at hchars
    cases after with
    | cons t more =>
      refine absurd ?_ h.apart
      exact ⟨joinSegments front, joinSegments (t :: more), by simp [hchars, joinSegments]⟩
    | nil =>
      have hclosed := h.closed (by simp [hchars, joinSegments])
      have hroot : p = ⟨['/']⟩ := congrArg Path.mk hclosed
      rw [hroot]
      rfl

/-! ## Moves -/

/-- The components of a path after its root, without a `.` that begins it: each leads up, or is a
name. -/
def moves (p : Path) : List Component := p.pieces.filterMap Component.ofPiece

/-- The components that a path begins with before its moves. -/
def start (absolute : Bool) : List Component := if absolute then [.root] else []

theorem moves_eq (p : Path) : p.moves = (segments p.chars).filterMap Component.ofPiece := by
  rw [segments_chars, moves]
  split <;> rfl

theorem components_eq_moves (h : p.isAbsolute ∨ ['.'] ∉ p.pieces) :
    p.components = start p.isAbsolute ++ p.moves := by
  cases hp : p.isAbsolute with
  | true => rw [components_of_absolute hp]; rfl
  | false =>
    have hdot := h.resolve_left (by simp [hp])
    simp only [components, hp, Bool.false_eq_true, if_false, moves, start, List.nil_append]
    cases hs : p.pieces with
    | nil => rfl
    | cons s rest =>
      have hs : s ≠ ['.'] := by
        rintro rfl
        exact hdot (hs ▸ List.mem_cons_self)
      simp only [if_neg hs, List.filterMap_cons]
      cases Component.ofPiece s <;> rfl

/-- The components of a path as they are put together, the last first. -/
def stack (p : Path) : List Component := p.moves.foldl push (start p.isAbsolute)

/-- A `.` that begins a path is no move. -/
theorem normalComponents_eq (p : Path) : p.normalComponents = p.stack.reverse := by
  rw [normalComponents, stack]
  congr 1
  cases hp : p.isAbsolute with
  | true => rw [components_eq_moves (.inl hp), hp]; rfl
  | false =>
    simp only [components, hp, Bool.false_eq_true, if_false, moves, start]
    cases p.pieces with
    | nil => rfl
    | cons s rest =>
      by_cases hs : s = ['.']
      · subst hs
        rfl
      · simp only [if_neg hs, List.filterMap_cons]
        cases Component.ofPiece s <;> rfl

theorem moves_join (hb : b.isAbsolute = false) :
    (a / b).isAbsolute = a.isAbsolute ∧ (a / b).moves = a.moves ++ b.moves := by
  refine ⟨by rw [isAbsolute_join_eq, hb, Bool.or_false], ?_⟩
  obtain ⟨front, hjoined, hself⟩ := exists_segments_join a hb
  have hfront : (segments a.chars).filterMap Component.ofPiece =
      front.filterMap Component.ofPiece := by
    rcases hself with h | h
    · rw [h]
    · rw [h, List.filterMap_append]
      exact List.append_nil _
  rw [moves_eq, moves_eq a, moves_eq b, hjoined, List.filterMap_append, hfront]

/-! ## What is put together -/

/-- Moves that go up in front only, and so only from no root. -/
def Straightened (absolute : Bool) (ms : List Component) : Prop :=
  ∃ n names, ms = List.replicate n .parent ++ names ∧ (∀ c ∈ names, IsName c) ∧
    (absolute → n = 0)

theorem straightened_push (h : Straightened absolute ms) (hc : c = .parent ∨ IsName c) :
    ∃ ms', push (ms.reverse ++ start absolute) c = ms'.reverse ++ start absolute ∧
      Straightened absolute ms' := by
  obtain ⟨n, names, rfl, hnames, hn⟩ := h
  rcases hc with rfl | hc
  · rcases List.eq_nil_or_concat names with rfl | ⟨front, d, rfl⟩
    · cases absolute with
      | true =>
        cases hn rfl
        exact ⟨[], rfl, 0, [], rfl, by simp, by simp⟩
      | false =>
        refine ⟨List.replicate (n + 1) .parent, ?_, n + 1, [], by simp, by simp, by simp⟩
        cases n with
        | zero => rfl
        | succ n => simp [start, push, ← List.replicate_succ', List.replicate_succ]
    · obtain ⟨s, rfl, -⟩ := hnames d (by simp)
      refine ⟨List.replicate n .parent ++ front, ?_, n, front, rfl, fun c hc => hnames c ?_, hn⟩
      · simp [push]
      · simp [hc]
  · obtain ⟨s, rfl, hs⟩ := hc
    refine ⟨List.replicate n .parent ++ (names ++ [.normal s]), by simp, n, _, rfl, ?_, hn⟩
    intro c hc
    rcases List.mem_append.mp hc with hc | hc
    · exact hnames c hc
    · rw [List.mem_singleton.mp hc]
      exact ⟨s, rfl, hs⟩

theorem straightened_foldl (cs : List Component) (hcs : ∀ c ∈ cs, c = .parent ∨ IsName c)
    (h : Straightened absolute ms) :
    ∃ ms', cs.foldl push (ms.reverse ++ start absolute) = ms'.reverse ++ start absolute ∧
      Straightened absolute ms' := by
  induction cs generalizing ms with
  | nil => exact ⟨ms, rfl, h⟩
  | cons c cs ih =>
    obtain ⟨ms', hpush, h'⟩ := straightened_push h (hcs c List.mem_cons_self)
    rw [List.foldl_cons, hpush]
    exact ih (fun d hd => hcs d (List.mem_cons_of_mem c hd)) h'

theorem exists_stack (p : Path) :
    ∃ ms, p.stack = ms.reverse ++ start p.isAbsolute ∧ Straightened p.isAbsolute ms :=
  straightened_foldl p.moves (fun _ => up_or_isName) ⟨0, [], rfl, by simp, by simp⟩

/-- What goes up in front only is put together as it is. -/
theorem Straightened.foldl_push (h : Straightened absolute ms) :
    ms.foldl push (start absolute) = ms.reverse ++ start absolute := by
  obtain ⟨n, names, rfl, hnames, hn⟩ := h
  have hups : (List.replicate n Component.parent).foldl push (start absolute) =
      List.replicate n .parent ++ start absolute := by
    cases absolute with
    | true => cases hn rfl; rfl
    | false =>
      clear hn
      induction n with
      | zero => rfl
      | succ n ih =>
        rw [List.replicate_succ', List.foldl_append, ih, ← List.replicate_succ',
          List.replicate_succ]
        cases n <;> rfl
  rw [List.foldl_append, hups, foldl_push_names hnames]
  simp

theorem Straightened.isMove (h : Straightened absolute ms) (hc : c ∈ ms) :
    c = .parent ∨ IsName c := by
  obtain ⟨n, names, rfl, hnames, -⟩ := h
  rcases List.mem_append.mp hc with hc | hc
  · exact .inl (List.eq_of_mem_replicate hc)
  · exact .inr (hnames c hc)

theorem Straightened.solid (h : Straightened absolute ms) :
    Solid (ms.map Component.piece) ∧ ['.'] ∉ ms.map Component.piece := by
  have hpiece {s : Name} (hs : s ∈ ms.map Component.piece) : s ≠ [] ∧ '/' ∉ s ∧ s ≠ ['.'] := by
    obtain ⟨c, hc, rfl⟩ := List.mem_map.mp hs
    rcases h.isMove hc with rfl | ⟨s, rfl, hempty, hdot, -, hslash⟩
    · simp [Component.piece]
    · exact ⟨hempty, hslash, hdot⟩
  exact ⟨fun s hs => ⟨(hpiece hs).1, (hpiece hs).2.1⟩, fun hdot => (hpiece hdot).2.2 rfl⟩

theorem Straightened.filterMap_piece (h : Straightened absolute ms) :
    (ms.map Component.piece).filterMap Component.ofPiece = ms := by
  obtain ⟨n, names, rfl, hnames, -⟩ := h
  rw [List.map_append, List.filterMap_append, Path.filterMap_piece hnames, List.map_replicate]
  congr 1
  induction n with
  | zero => rfl
  | succ n ih =>
    have hup : Component.ofPiece Component.parent.piece = some .parent := rfl
    rw [List.replicate_succ, List.filterMap_cons_some hup, ih, List.replicate_succ]

/-- Moves are written as a path piece by piece. -/
theorem render_eq (h : Straightened absolute ms) :
    render (start absolute ++ ms) = ofPieces absolute (ms.map Component.piece) := by
  cases absolute with
  | true => rfl
  | false =>
    rw [start, if_neg (by simp), List.nil_append]
    unfold render
    split
    · exact absurd (h.isMove List.mem_cons_self) (by simp [IsName])
    · rfl

/-- A normal form is made of moves that go up in front only. -/
theorem exists_normalize (p : Path) : ∃ ms, Straightened p.isAbsolute ms ∧
    p.stack = ms.reverse ++ start p.isAbsolute ∧
    p.normalize = ofPieces p.isAbsolute (ms.map Component.piece) := by
  obtain ⟨ms, hstack, h⟩ := p.exists_stack
  refine ⟨ms, h, hstack, ?_⟩
  have hstart : (start p.isAbsolute).reverse = start p.isAbsolute := by
    cases p.isAbsolute <;> rfl
  rw [normalize, normalComponents_eq, hstack, List.reverse_append, List.reverse_reverse, hstart,
    render_eq h]

theorem isAbsolute_normalize (p : Path) : p.normalize.isAbsolute = p.isAbsolute := by
  obtain ⟨ms, h, -, hnormal⟩ := p.exists_normalize
  rw [hnormal, isAbsolute_ofPieces h.solid.1]

/-- A path and its normal form are put together alike. -/
theorem stack_normalize (p : Path) : p.normalize.stack = p.stack := by
  obtain ⟨ms, h, hstack, hnormal⟩ := p.exists_normalize
  have hmoves : p.normalize.moves = ms := by
    rw [moves, hnormal, pieces_ofPieces h.solid.1]
    split
    · next hnil => rw [List.map_eq_nil_iff.mp hnil]; rfl
    · exact h.filterMap_piece
  rw [stack, hmoves, isAbsolute_normalize, h.foldl_push, hstack]

theorem normalize_eq_of_stack (h : a.stack = b.stack) : a.normalize = b.normalize := by
  rw [normalize, normalize, normalComponents_eq, normalComponents_eq, h]

theorem stack_join (hb : b.isAbsolute = false) : (a / b).stack = b.moves.foldl push a.stack := by
  obtain ⟨habs, hmoves⟩ := moves_join (a := a) hb
  rw [stack, habs, hmoves, List.foldl_append, stack]

/-! ## Paths that are their own normal form -/

/-- A path without superfluous pieces.

No piece of it is a `.`, separators stand between two pieces or are the root, and what leads up does
so in front, where there is no root. -/
structure Reduced (p : Path) : Prop where
  dotless : ['.'] ∉ p.pieces
  single : p.Single
  straight : ∃ (n : Nat) (names : List Name), p.components =
    start p.isAbsolute ++ List.replicate n .parent ++ names.map .normal ∧ (p.isAbsolute → n = 0)

theorem reduced_normalize (p : Path) : p.normalize.Reduced := by
  obtain ⟨ms, h, -, hnormal⟩ := p.exists_normalize
  have habs := isAbsolute_normalize p
  have hpieces : p.normalize.pieces = [[]] ∧ ms = [] ∨
      p.normalize.pieces = ms.map Component.piece := by
    rw [hnormal, pieces_ofPieces h.solid.1]
    split
    · next hnil => exact .inl ⟨rfl, List.map_eq_nil_iff.mp hnil⟩
    · exact .inr rfl
  have hdot : ['.'] ∉ p.normalize.pieces := by
    rcases hpieces with ⟨hempty, -⟩ | hpieces
    · simp [hempty]
    · rw [hpieces]
      exact h.solid.2
  have hmoves : p.normalize.moves = ms := by
    rw [moves]
    rcases hpieces with ⟨hempty, rfl⟩ | hpieces
    · rw [hempty]
      rfl
    · rw [hpieces]
      exact h.filterMap_piece
  refine ⟨hdot, single_of_pieces ?_, ?_⟩
  · rcases hpieces with ⟨hempty, -⟩ | hpieces
    · exact .inl hempty
    · exact .inr fun hmem => (h.solid.1 [] (hpieces ▸ hmem)).1 rfl
  · obtain ⟨n, names, rfl, hnames, hn⟩ := h
    refine ⟨n, names.map Component.piece, ?_, by rwa [habs]⟩
    have hmap : (names.map Component.piece).map Component.normal = names := by
      rw [List.map_map]
      refine (List.map_congr_left fun c hc => ?_).trans (List.map_id names)
      obtain ⟨s, rfl, -⟩ := hnames c hc
      rfl
    rw [components_eq_moves (.inr hdot), hmoves, hmap, List.append_assoc]

theorem map_piece_filterMap (hps : ∀ s ∈ ps, s ≠ [] ∧ s ≠ ['.']) :
    (ps.filterMap Component.ofPiece).map Component.piece = ps := by
  induction ps with
  | nil => rfl
  | cons s rest ih =>
    have hrest := ih fun t ht => hps t (List.mem_cons_of_mem s ht)
    obtain ⟨hempty, hdot⟩ := hps s List.mem_cons_self
    obtain ⟨c, hc, hpiece⟩ : ∃ c, Component.ofPiece s = some c ∧ c.piece = s := by
      by_cases hup : s = ['.', '.']
      · exact ⟨.parent, by rw [hup]; rfl, hup.symm⟩
      · exact ⟨.normal s, by simp [Component.ofPiece, hempty, hdot, hup], rfl⟩
    rw [List.filterMap_cons_some hc, List.map_cons, hpiece, hrest]

theorem Reduced.straightened (h : p.Reduced) : Straightened p.isAbsolute p.moves := by
  obtain ⟨n, names, hcomponents, hn⟩ := h.straight
  rw [components_eq_moves (.inr h.dotless), List.append_assoc, List.append_cancel_left_eq]
    at hcomponents
  refine ⟨n, names.map .normal, hcomponents, ?_, hn⟩
  intro c hc
  have hmove : c ∈ p.moves := hcomponents ▸ List.mem_append_right _ hc
  refine (up_or_isName hmove).resolve_left ?_
  rintro rfl
  simp at hc

/-- A path without superfluous pieces is its own normal form. -/
theorem Reduced.normalize_eq (h : p.Reduced) : p.normalize = p := by
  obtain ⟨ms, -, hstack, hnormal⟩ := p.exists_normalize
  have hms : ms = p.moves := by
    rw [stack, h.straightened.foldl_push, List.append_cancel_right_eq] at hstack
    exact (List.reverse_inj.mp hstack).symm
  have hpieces := ofPieces_pieces p
  rw [hnormal, hms]
  rcases h.single.pieces with hempty | hne
  · rw [hempty] at hpieces
    rw [moves, hempty]
    exact hpieces
  · rw [moves, map_piece_filterMap fun s hs => ⟨?_, ?_⟩, hpieces]
    · rintro rfl
      exact hne hs
    · rintro rfl
      exact h.dotless hs

/-- What becomes of a path when it is made normal, and of another path taken from it.

Its normal form is a path without superfluous pieces; these are all the paths that stay as they
are, so that making a path normal again changes nothing. It is absolute if the path is, the same for
all paths with the same components, and as good as the path to take another one from it. -/
structure NormalizeLaw (a b : Path) : Prop where
  idempotent : a.normalize.normalize = a.normalize
  reduced : a.normalize.Reduced
  reduced_iff : a.Reduced ↔ a.normalize = a
  absolute : a.normalize.isAbsolute = a.isAbsolute
  join : (a / b).normalize = (a.normalize / b).normalize
  same : a.same b → a.normalize = b.normalize

/-- Making a path normal chooses one of the paths with its meaning by the text. -/
theorem normalize_law (a b : Path) : a.NormalizeLaw b where
  idempotent := (reduced_normalize a).normalize_eq
  reduced := reduced_normalize a
  reduced_iff := ⟨Reduced.normalize_eq, fun h => h ▸ reduced_normalize a⟩
  absolute := isAbsolute_normalize a
  join := by
    cases hb : b.isAbsolute with
    | true =>
      have hjoin (q : Path) : q / b = b := if_pos hb
      rw [hjoin, hjoin]
    | false =>
      apply normalize_eq_of_stack
      rw [stack_join hb, stack_join hb, stack_normalize]
  same := normalize_eq_of_same

end LoadHook.Path
