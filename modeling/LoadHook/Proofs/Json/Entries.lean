import LoadHook.Proofs.Json.Grammar

/-!
# Between two brackets

The entries of a list or of an object as they are left to a reader. An entry is looked for behind
the white space that the one before it has left and behind a comma, only the first one at once; so
every step of a reader leaves a text of the same form, with one entry less.
-/
namespace LoadHook.Json

/-! ## What is left of a list -/

namespace Entry

/-- What is left before the closing bracket when the next entry is looked for: white space, and a
comma before each entry but the very first. -/
def remaining (first : Bool) (blank : List Char) : List Entry → List Char
  | [] => blank
  | e :: es =>
    (if first then [] else blank ++ [',']) ++
      (e.head ++ (e.before ++ (e.text ++ remaining false e.after es)))

theorem between_eq (blank : List Char) (es : List Entry) :
    between blank es = remaining true blank es := by
  have hmore : ∀ after, (after ++ es.tail.flatMap fun e => ',' :: e.chars) =
      remaining false after es.tail := by
    induction es.tail with
    | nil => simp [remaining]
    | cons e es ih =>
      intro after
      simp [remaining, chars, ← ih]
  cases es with
  | nil => rfl
  | cons e es => simpa [between, remaining, chars] using hmore e.after

/-- An entry in good form of an object, or of a list. -/
def Belongs (object : Bool) (e : Entry) : Prop := ∃ name, e.Fits name ∧ name.isSome = object

/-- Each entry has a text of its own. -/
theorem length_le_remaining (first : Bool) (blank : List Char) {es : List Entry}
    (h : ∀ e ∈ es, Wellformed e.text) : es.length ≤ (remaining first blank es).length := by
  induction es generalizing first blank with
  | nil => exact Nat.zero_le _
  | cons e es ih =>
    obtain ⟨ch, cs, htext, -⟩ := (h e List.mem_cons_self).cons
    have hrest := ih false e.after fun d hd => h d (List.mem_cons_of_mem e hd)
    simp only [remaining, List.length_append, List.length_cons, htext]
    omega

end Entry

namespace Cursor

open Text (Utf16)

variable {c : Cursor} {rest blank : List Char} {e : Entry}

/-! ## White space -/

theorem rest_skipSpace (c : Cursor) : c.skipSpace.rest = c.rest.dropWhile isSpace := by
  obtain ⟨text, line, column⟩ := c
  change (skipSpace.go text line column).rest = text.dropWhile isSpace
  induction text generalizing line column with
  | nil => rfl
  | cons ch text ih =>
    rw [skipSpace.go, List.dropWhile_cons]
    by_cases hch : isSpace ch
    · rw [if_pos hch, if_pos hch]
      split <;> exact ih _ _
    · rw [if_neg hch, if_neg hch]

theorem isSpace_of_blank {blank : List Char} (h : Blank blank) : ∀ ch ∈ blank, isSpace ch := by
  intro ch hch
  have hmem := h ch hch
  simp only [List.mem_cons, List.not_mem_nil, or_false] at hmem
  rcases hmem with rfl | rfl | rfl | rfl <;> decide

/-- White space is passed up to the next token. -/
theorem skipSpace_of_blank {blank : List Char} (hblank : Blank blank) (hch : isSpace ch = false)
    (h : c.rest = blank ++ ch :: rest) : c.skipSpace.rest = ch :: rest := by
  rw [rest_skipSpace, h, List.dropWhile_append_of_pos (isSpace_of_blank hblank),
    List.dropWhile_cons_of_neg (by simp [hch])]

/-- White space is passed up to the end of the text. -/
theorem skipSpace_of_end (hblank : Blank c.rest) : c.skipSpace.rest = [] := by
  have h : (c.rest ++ []).dropWhile isSpace = [].dropWhile isSpace :=
    List.dropWhile_append_of_pos (isSpace_of_blank hblank)
  rw [rest_skipSpace]
  simpa using h

/-! ## The end of a number -/

theorem endsNumber_blank (hblank : Blank blank) (h : EndsNumber rest) :
    EndsNumber (blank ++ rest) := by
  cases blank with
  | nil => exact h
  | cons ch blank =>
    intro d hd
    cases hd
    have hmem := hblank ch List.mem_cons_self
    simp only [List.mem_cons, List.not_mem_nil, or_false] at hmem
    rcases hmem with rfl | rfl | rfl | rfl <;> decide

/-- The closing bracket of a list or of an object. -/
def close (object : Bool) : Char := if object then '\x7d' else ']'

theorem isSpace_close (object : Bool) : isSpace (close object) = false := by
  cases object <;> decide

/-- Behind a value no number can go on. -/
theorem endsNumber_remaining (object : Bool) {es : List Entry} (hblank : Blank blank) :
    EndsNumber (Entry.remaining false blank es ++ close object :: rest) := by
  cases es with
  | nil =>
    refine endsNumber_blank hblank (endsNumber_cons _ ?_)
    cases object
    · exact .inr (.inl rfl)
    · exact .inr (.inr rfl)
  | cons e es =>
    simp only [Entry.remaining, Bool.false_eq_true, if_false, List.append_assoc]
    exact endsNumber_blank hblank (endsNumber_cons _ (.inl rfl))

/-! ## One entry after the other -/

/-- The next item of a list is found. -/
theorem takes_nextItem {first : Bool} (hblank : Blank blank) (hfits : e.Fits none)
    (hword : Wellformed e.text)
    (h : c.rest = (if first then [] else blank ++ [',']) ++
      (e.head ++ (e.before ++ (e.text ++ rest)))) :
    Takes (c.nextItem first) .item (e.text ++ rest) := by
  obtain ⟨ch, cs, htext, hspace, hne⟩ := hword.cons
  obtain ⟨hhead, hbefore, -⟩ := hfits
  generalize e.head = head at hhead h
  cases hhead
  rw [htext] at h ⊢
  cases first with
  | true =>
    have hskip := skipSpace_of_blank hbefore hspace h
    simp only [nextItem, peek_of_rest hskip, if_true]
    exact .ok hskip
  | false =>
    simp only [Bool.false_eq_true, if_false, List.append_assoc] at h
    have hcomma := skipSpace_of_blank hblank (by decide) h
    have hskip := skipSpace_of_blank hbefore hspace (next_of_rest hcomma)
    simp only [nextItem, peek_of_rest hcomma, Bool.false_eq_true, if_false, peek_of_rest hskip]
    exact .ok hskip

/-- The end of a list is found, and passed. -/
theorem takes_nextItem_stop {first : Bool} (hblank : Blank blank)
    (h : c.rest = blank ++ ']' :: rest) : Takes (c.nextItem first) .stop (']' :: rest) := by
  have hskip := skipSpace_of_blank hblank (by decide) h
  simp only [nextItem, peek_of_rest hskip]
  exact .ok hskip

theorem takes_listEnd (h : c.rest = ']' :: rest) : Takes c.listEnd () rest := by
  rw [listEnd, skipSpace_of_rest h (by decide), peek_of_rest h]
  exact .ok (next_of_rest h)

/-- The next name of an object is found, and the opening quote is passed. -/
theorem takes_nextName {first : Bool} {name : Utf16} (hblank : Blank blank)
    (hfits : e.Fits (some name))
    (h : c.rest = (if first then [] else blank ++ [',']) ++
      (e.head ++ (e.before ++ (e.text ++ rest)))) :
    ∃ body back, Quotes name body ∧ Blank back ∧
      Takes (c.nextName first) .item
        (body ++ '"' :: (back ++ ':' :: (e.before ++ (e.text ++ rest)))) := by
  obtain ⟨hhead, hbefore, -⟩ := hfits
  generalize e.head = head at hhead h
  cases hhead with
  | @member _ front body back hfront hname hback =>
    refine ⟨body, back, hname, hback, ?_⟩
    cases first with
    | true =>
      simp only [if_true, List.nil_append, List.append_assoc, List.cons_append] at h
      have hskip := skipSpace_of_blank hfront (by decide) h
      simp only [nextName, peek_of_rest hskip, if_true]
      exact .ok (next_of_rest hskip)
    | false =>
      simp only [Bool.false_eq_true, if_false, List.append_assoc, List.cons_append,
        List.nil_append] at h
      have hcomma := skipSpace_of_blank hblank (by decide) h
      have hskip := skipSpace_of_blank hfront (by decide) (next_of_rest hcomma)
      simp only [nextName, peek_of_rest hcomma, Bool.false_eq_true, if_false, peek_of_rest hskip]
      exact .ok (next_of_rest hskip)

/-- The end of an object is found, and passed. -/
theorem takes_nextName_stop {first : Bool} (hblank : Blank blank)
    (h : c.rest = blank ++ '}' :: rest) : Takes (c.nextName first) .stop ('}' :: rest) := by
  have hskip := skipSpace_of_blank hblank (by decide) h
  simp only [nextName, peek_of_rest hskip]
  exact .ok hskip

theorem takes_objectEnd (h : c.rest = '}' :: rest) : Takes c.objectEnd () rest := by
  rw [objectEnd, skipSpace_of_rest h (by decide), peek_of_rest h]
  exact .ok (next_of_rest h)

theorem takes_colon (hblank : Blank blank) (h : c.rest = blank ++ ':' :: rest) :
    Takes c.colon () rest := by
  have hskip := skipSpace_of_blank hblank (by decide) h
  simp only [colon, peek_of_rest hskip]
  exact .ok (next_of_rest hskip)

/-- Only white space is left. -/
theorem finish_of_takes {α : Type} {r : Except Fault (α × Cursor)} {a : α} (h : Takes r a blank)
    (hblank : Blank blank) : finish r = .ok a := by
  obtain ⟨c, rfl, rfl⟩ := h
  have hpeek : c.skipSpace.peek = none := by
    rw [peek, skipSpace_of_end hblank]
    rfl
  simp [finish, bind, Except.bind, hpeek]

end Cursor
end LoadHook.Json
