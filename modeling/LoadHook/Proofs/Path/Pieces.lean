import LoadHook.Path.Normal
import Mathlib.Data.List.TakeDrop
import Mathlib.Data.List.TakeWhile

/-!
# Pieces of a path

How cutting a text into pieces and joining pieces go together, and what joining, extending and
cutting off the last component do to the pieces of a path. A path is named by its last piece, and
its extension is what follows the last dot of that name, if there is anything in front of the dot.
So a stem to which a dot and more are added has as extension what follows the last dot of all that;
but behind an open stem a single dot begins the name.
-/
namespace LoadHook.Path

variable {p q : Path} {s t : Name} {ps : List Name} {cs ds front x : List Char}

/-! ## Cutting and joining -/

/-- No piece holds a separator. -/
theorem not_mem_of_mem_segments (hs : s ∈ segments cs) : '/' ∉ s := by
  induction cs generalizing s with
  | nil => simp_all [segments]
  | cons c rest ih =>
    unfold segments at hs
    split at hs
    · rcases List.mem_cons.mp hs with rfl | hs
      · simp
      · exact ih hs
    · next hc =>
      cases hr : segments rest with
      | nil => exact absurd hr (segments_ne_nil rest)
      | cons u more =>
        rw [hr] at hs ih
        rcases List.mem_cons.mp hs with rfl | hs
        · have hu := ih List.mem_cons_self
          simp only [List.mem_cons, not_or]
          exact ⟨fun e => hc e.symm, hu⟩
        · exact ih (List.mem_cons_of_mem u hs)

theorem segments_of_not_mem (hs : '/' ∉ s) : segments s = [s] := by
  induction s with
  | nil => rfl
  | cons c rest ih =>
    simp only [List.mem_cons, not_or] at hs
    simp [segments, Ne.symm hs.1, ih hs.2]

/-- A separator cuts a text in two. -/
theorem segments_append_cons (cs ds : List Char) :
    segments (cs ++ '/' :: ds) = segments cs ++ segments ds := by
  induction cs with
  | nil => simp [segments]
  | cons c rest ih =>
    simp only [List.cons_append, segments, ih]
    split
    · rfl
    · cases hr : segments rest with
      | nil => exact absurd hr (segments_ne_nil rest)
      | cons u more => rfl

theorem segments_joinSegments (hps : ps ≠ []) (hs : ∀ s ∈ ps, '/' ∉ s) :
    segments (joinSegments ps) = ps := by
  induction ps with
  | nil => exact absurd rfl hps
  | cons s rest ih =>
    cases rest with
    | nil => exact segments_of_not_mem (hs s (by simp))
    | cons t more =>
      have hmore := ih (by simp) fun u hu => hs u (by simp_all)
      rw [joinSegments, segments_append_cons, segments_of_not_mem (hs s (by simp)), hmore]
      rfl

/-- What is added at the end of a text without separator goes to its last piece. -/
theorem segments_append (cs : List Char) (hds : '/' ∉ ds) :
    ∃ front last, segments cs = front ++ [last] ∧
      segments (cs ++ ds) = front ++ [last ++ ds] := by
  induction cs with
  | nil => exact ⟨[], [], rfl, segments_of_not_mem hds⟩
  | cons c rest ih =>
    obtain ⟨front, last, hrest, happend⟩ := ih
    simp only [List.cons_append, segments, hrest, happend]
    split
    · exact ⟨[] :: front, last, rfl, rfl⟩
    · cases front with
      | nil => exact ⟨[], c :: last, rfl, rfl⟩
      | cons u more => exact ⟨(c :: u) :: more, last, rfl, rfl⟩

/-- The last piece is at the end of the text. -/
theorem joinSegments_concat (ps : List Name) (s : Name) :
    ∃ cs, joinSegments (ps ++ [s]) = cs ++ s := by
  induction ps with
  | nil => exact ⟨[], rfl⟩
  | cons t rest ih =>
    obtain ⟨cs, hcs⟩ := ih
    refine ⟨t ++ '/' :: cs, ?_⟩
    cases rest with
    | nil => simp_all [joinSegments]
    | cons u more =>
      simp only [List.cons_append] at hcs
      simp [joinSegments, hcs]

/-! ## Pieces of paths -/

theorem not_mem_of_mem_pieces (hs : s ∈ p.pieces) : '/' ∉ s := not_mem_of_mem_segments hs

theorem chars_of_absolute (h : p.isAbsolute) : p.chars = '/' :: p.body := by
  obtain ⟨chars⟩ := p
  cases chars with
  | nil => simp [isAbsolute] at h
  | cons c rest =>
    have hc : c = '/' := by simpa [isAbsolute] using h
    subst hc
    rfl

@[simp] theorem pieces_cons (cs : List Char) : pieces ⟨'/' :: cs⟩ = segments cs := rfl

/-- A path written as a root and pieces has these pieces. -/
theorem mem_pieces_ofPieces (hps : ∀ s ∈ ps, '/' ∉ s) (ht : t ∈ (ofPieces true ps).pieces) :
    t = [] ∨ t ∈ ps := by
  simp only [ofPieces, if_true, pieces_cons] at ht
  cases ps with
  | nil => simp_all [joinSegments, segments]
  | cons s rest =>
    rw [segments_joinSegments (by simp) hps] at ht
    exact .inr ht

theorem segments_chars (p : Path) :
    segments p.chars = if p.isAbsolute then [] :: p.pieces else p.pieces := by
  cases hp : p.isAbsolute with
  | true => rw [if_pos rfl, chars_of_absolute hp, segments, if_pos rfl, pieces]
  | false => simp [pieces, body, hp]

theorem pieces_ne_nil (p : Path) : p.pieces ≠ [] := segments_ne_nil p.body

/-- A text without separator is a relative path of one piece. -/
theorem pieces_of_not_mem (hs : '/' ∉ s) :
    (⟨s⟩ : Path).isAbsolute = false ∧ (⟨s⟩ : Path).pieces = [s] := by
  have hrel : (⟨s⟩ : Path).isAbsolute = false :=
    beq_eq_false_iff_ne.mpr fun h => hs (List.mem_of_mem_head? h)
  refine ⟨hrel, ?_⟩
  rw [pieces, body, hrel]
  exact segments_of_not_mem hs

/-! ## Taking a path from another one -/

/-- A relative path stands behind a separator: the one that the other path ends with, or another
one. After no text at all it stands alone. -/
theorem join_cases (p : Path) (hq : q.isAbsolute = false) :
    p.chars = [] ∧ p / q = q ∨
      ∃ cs, (p.chars = cs ++ ['/'] ∨ p.chars = cs ∧ cs ≠ []) ∧ p / q = ⟨cs ++ '/' :: q.chars⟩ := by
  have hjoin : p / q = join p q := rfl
  rw [hjoin, join, hq, if_neg (by simp)]
  split
  · next hopen =>
    rw [Bool.or_eq_true, List.isEmpty_iff, beq_iff_eq] at hopen
    rcases hopen with hnil | hlast
    · exact .inl ⟨hnil, by rw [hnil, List.nil_append]⟩
    · obtain ⟨cs, hcs⟩ := List.getLast?_eq_some_iff.mp hlast
      exact .inr ⟨cs, .inl hcs, by rw [hcs, List.append_assoc, List.singleton_append]⟩
  · next hclosed =>
    refine .inr ⟨p.chars, .inr ⟨rfl, fun hnil => hclosed ?_⟩, rfl⟩
    rw [hnil]
    rfl

theorem isAbsolute_join_eq (p q : Path) : (p / q).isAbsolute = (p.isAbsolute || q.isAbsolute) := by
  cases hq : q.isAbsolute with
  | true =>
    have hjoin : p / q = q := if_pos hq
    rw [hjoin, hq, Bool.or_true]
  | false =>
    rw [Bool.or_false]
    rcases join_cases p hq with ⟨hnil, hjoin⟩ | ⟨cs, hcs, hjoin⟩
    · rw [hjoin, hq, isAbsolute, hnil]
      rfl
    · rw [hjoin, isAbsolute, isAbsolute]
      cases cs with
      | nil => rw [hcs.resolve_right fun h => h.2 rfl]; rfl
      | cons c rest => rcases hcs with h | ⟨h, -⟩ <;> rw [h] <;> rfl

/-- The pieces of the texts stand one behind the other, but for one that adds nothing. -/
theorem exists_segments_join (p : Path) (hq : q.isAbsolute = false) :
    ∃ front, segments (p / q).chars = front ++ segments q.chars ∧
      (segments p.chars = front ∨ segments p.chars = front ++ [[]]) := by
  have hempty : segments ([] : List Char) = [[]] := rfl
  rcases join_cases p hq with ⟨hnil, hjoin⟩ | ⟨cs, hcs, hjoin⟩
  · exact ⟨[], by rw [hjoin]; rfl, .inr (by rw [hnil]; rfl)⟩
  · refine ⟨segments cs, by rw [hjoin, segments_append_cons], ?_⟩
    rcases hcs with hcs | ⟨hcs, -⟩
    · exact .inr (by rw [hcs, segments_append_cons, hempty])
    · exact .inl (by rw [hcs])

/-- The pieces of what is taken from a path are those of the path, but for one that adds nothing at
their end, and those that are taken from it. -/
theorem exists_pieces_join (p : Path) (hq : q.isAbsolute = false) :
    ∃ front, (p / q).pieces = front ++ q.pieces ∧
      (p.pieces = front ∨ p.pieces = front ++ [[]]) := by
  obtain ⟨front, hjoined, hself⟩ := exists_segments_join p hq
  rw [segments_chars, isAbsolute_join_eq, hq, Bool.or_false, segments_chars q, hq] at hjoined
  rw [segments_chars] at hself
  cases hp : p.isAbsolute with
  | false =>
    simp only [hp, Bool.false_eq_true, if_false] at hjoined hself
    exact ⟨front, hjoined, hself⟩
  | true =>
    simp only [hp, if_true] at hjoined hself
    cases front with
    | nil =>
      -- the piece that is dropped would be the root
      refine absurd ?_ (pieces_ne_nil p)
      rcases hself with h | h
      · cases h
      · exact (List.cons.inj h).2
    | cons t rest =>
      obtain ⟨rfl, hrest⟩ := List.cons.inj hjoined
      exact ⟨rest, hrest, hself.imp (fun h => (List.cons.inj h).2) fun h => (List.cons.inj h).2⟩

/-- A path taken from an absolute one has the pieces of both. -/
theorem mem_pieces_join (hp : p.isAbsolute) (hq : q.isAbsolute = false) :
    (p / q).isAbsolute ∧ ∀ s ∈ (p / q).pieces, s ∈ p.pieces ∨ s ∈ q.pieces := by
  refine ⟨by rw [isAbsolute_join_eq, hp, Bool.true_or], fun s hs => ?_⟩
  obtain ⟨front, hjoined, hself⟩ := exists_pieces_join p hq
  rw [hjoined, List.mem_append] at hs
  refine hs.imp_left fun hs => ?_
  rcases hself with h | h <;> rw [h]
  · exact hs
  · exact List.mem_append_left _ hs

/-- What is taken from an absolute path is absolute. -/
theorem isAbsolute_join (hp : p.isAbsolute) (q : Path) : (p / q).isAbsolute := by
  rw [isAbsolute_join_eq, hp, Bool.true_or]

theorem isAbsolute_append (p : Path) (hds : '/' ∉ ds) :
    (p.append ds).isAbsolute = p.isAbsolute := by
  obtain ⟨cs⟩ := p
  cases cs with
  | cons c rest => rfl
  | nil =>
    cases ds with
    | nil => rfl
    | cons d rest =>
      have hd : d ≠ '/' := fun h => hds (h ▸ List.mem_cons_self)
      simp [append, isAbsolute, hd]

theorem body_append (p : Path) (hds : '/' ∉ ds) : (p.append ds).body = p.body ++ ds := by
  rw [body, isAbsolute_append p hds]
  cases hp : p.isAbsolute with
  | true => simp [append, chars_of_absolute hp]
  | false => simp [append, body, hp]

/-- What is added at the end of a path goes to its last piece. -/
theorem exists_pieces_append (p : Path) (hds : '/' ∉ ds) :
    ∃ front last, p.pieces = front ++ [last] ∧ (p.append ds).pieces = front ++ [last ++ ds] := by
  rw [pieces, pieces, body_append p hds]
  exact segments_append p.body hds

theorem pieces_append (hp : p.isAbsolute) (hds : '/' ∉ ds) : (p.append ds).isAbsolute ∧
    ∃ front last, p.pieces = front ++ [last] ∧ (p.append ds).pieces = front ++ [last ++ ds] :=
  ⟨(isAbsolute_append p hds).trans hp, exists_pieces_append p hds⟩

/-! ## Names and extensions -/

/-- Nothing stands behind the last separator, so what is added begins a new name. -/
def IsOpen (p : Path) : Prop := p.pieces.getLast? = some []

theorem span_reverse_dot (front : List Char) (hx : '.' ∉ x) :
    (front ++ '.' :: x).reverse.span (· != '.') = (x.reverse, '.' :: front.reverse) := by
  have hreverse : ∀ c ∈ x.reverse, (c != '.') = true := fun c hc =>
    bne_iff_ne.mpr fun h => hx (h ▸ List.mem_reverse.mp hc)
  rw [List.span_eq_takeWhile_dropWhile, List.reverse_append, List.reverse_cons, List.append_assoc,
    List.takeWhile_append_of_pos hreverse, List.dropWhile_append_of_pos hreverse]
  simp

/-- A name is cut at its last dot. -/
theorem cutName_dot (hfront : front ≠ []) (hx : '.' ∉ x) :
    cutName (front ++ '.' :: x) = (front, some x) := by
  obtain ⟨c, rest, hrest⟩ := List.exists_cons_of_ne_nil (List.reverse_ne_nil_iff.mpr hfront)
  rw [cutName, span_reverse_dot front hx, hrest]
  simp only [List.reverse_reverse]
  rw [← hrest, List.reverse_reverse]

/-- A name that begins with its only dot has no extension. -/
theorem cutName_dot_front (hx : '.' ∉ x) : cutName ('.' :: x) = ('.' :: x, none) := by
  rw [cutName, show '.' :: x = [] ++ '.' :: x from rfl, span_reverse_dot [] hx]
  rfl

/-- A name without dots is not cut. -/
theorem cutName_of_not_mem (hs : '.' ∉ s) : cutName s = (s, none) := by
  have hall : ∀ c ∈ s.reverse, (c != '.') = true := fun c hc =>
    bne_iff_ne.mpr fun h => hs (h ▸ List.mem_reverse.mp hc)
  rw [cutName, List.span_eq_takeWhile_dropWhile, List.dropWhile_eq_nil_iff.mpr hall]

/-- What a name is cut to was in it. -/
theorem mem_of_mem_cutName {c : Char} (hc : c ∈ (cutName s).1) : c ∈ s := by
  unfold cutName at hc
  rw [List.span_eq_takeWhile_dropWhile] at hc
  split at hc
  · exact hc
  · exact hc
  · next hcut =>
    have hdrop : s.reverse.dropWhile (· != '.') = _ := (Prod.ext_iff.mp hcut).2
    have hmem : c ∈ s.reverse.dropWhile (· != '.') := by
      rw [hdrop]
      exact List.mem_cons_of_mem _ (List.mem_reverse.mp hc)
    exact List.mem_reverse.mp ((List.dropWhile_sublist _).subset hmem)

theorem eq_of_ofPiece {t : Name} (h : Component.ofPiece t = some (.normal s)) : t = s := by
  unfold Component.ofPiece at h
  split at h
  · cases h
  · split at h
    · cases h
    · cases h
      rfl

/-- The name of a path is one of its pieces. -/
theorem mem_pieces_of_fileName (h : p.fileName = some s) : s ∈ p.pieces := by
  have hmem : .normal s ∈ p.components := by
    unfold fileName at h
    split at h
    · next hlast =>
      cases h
      exact List.mem_of_getLast? hlast
    · cases h
  unfold components at hmem
  split at hmem
  · obtain ⟨t, ht, hts⟩ := List.mem_filterMap.mp ((List.mem_cons.mp hmem).resolve_left nofun)
    exact eq_of_ofPiece hts ▸ ht
  · split at hmem
    · next t rest hpieces =>
      rw [hpieces]
      rcases List.mem_append.mp hmem with hmem | hmem
      · split at hmem
        · cases List.mem_singleton.mp hmem
        · exact eq_of_ofPiece (Option.mem_toList.mp hmem) ▸ List.mem_cons_self
      · obtain ⟨u, hu, hus⟩ := List.mem_filterMap.mp hmem
        exact List.mem_cons_of_mem _ (eq_of_ofPiece hus ▸ hu)
    · cases hmem

/-- No separator is left in the stem of a name. -/
theorem not_mem_fileStem (p : Path) : '/' ∉ p.fileStem.getD [] := by
  unfold fileStem
  cases h : p.fileName with
  | none => simp
  | some s =>
    exact fun hc => not_mem_of_mem_pieces (mem_pieces_of_fileName h) (mem_of_mem_cutName hc)

/-- A path is named by its last piece, if that is a name. -/
theorem fileName_of_pieces (hp : p.pieces = ps ++ [s])
    (hs : Component.ofPiece s = some (.normal s)) : p.fileName = some s := by
  have hdot : s ≠ ['.'] := by
    rintro rfl
    simp [Component.ofPiece] at hs
  have hlast : p.components.getLast? = some (.normal s) := by
    unfold components
    cases hrel : p.isAbsolute with
    | true =>
      rw [if_pos rfl, hp, List.filterMap_append, List.filterMap_cons_some hs, List.filterMap_nil,
        ← List.cons_append, List.getLast?_concat]
    | false =>
      rw [if_neg (by simp), hp]
      cases ps with
      | nil => simp [hs, hdot]
      | cons t rest =>
        simp only [List.cons_append, List.filterMap_append, List.filterMap_cons_some hs,
          List.filterMap_nil, ← List.append_assoc, List.getLast?_concat]
  rw [fileName, hlast]

theorem extension_of_pieces (hp : p.pieces = ps ++ [s])
    (hs : Component.ofPiece s = some (.normal s)) : p.extension = (cutName s).2 := by
  rw [extension, fileName_of_pieces hp hs, Option.bind_some]

end LoadHook.Path
