import LoadHook.Proofs.Json.Entries
import LoadHook.Proofs.Json.Quoting

/-!
# Passing over values

Every well-formed value is passed over, whatever it is and however deep it is nested, and nothing
more than the value: the place after it is where its text ends. A number ends where its text cannot
go on; as many steps as the text has characters are enough.
-/
namespace LoadHook.Json

namespace Cursor

open Text (Utf16)

variable {c : Cursor} {rest body ds blank text : List Char} {us : Utf16} {e : Entry}

/-! ## Numbers -/

/-- A text that does not begin with a digit. -/
def NoDigit (rest : List Char) : Prop := ∀ ch ∈ rest.head?, ch.isDigit = false

theorem EndsNumber.noDigit (h : EndsNumber rest) : NoDigit rest := fun ch hch => (h ch hch).1

theorem noDigit_cons {ch : Char} (h : ch.isDigit = false) : NoDigit (ch :: rest) := by
  intro d hd
  cases hd
  exact h

theorem NoDigit.digit? (h : NoDigit c.rest) : c.digit? = none := by
  unfold Cursor.digit?
  split
  · next ch _ hc => simp [h ch (by simp [hc])]
  · rfl

theorem digit?_isSome (hds : Digits ds) (h : c.rest = ds ++ rest) : c.digit?.isSome := by
  obtain ⟨d, ds, rfl, hd⟩ := hds.cons
  rw [digit?_of_rest h hd]
  rfl

theorem rest_skipDigits (hds : Digits ds) (hrest : NoDigit rest) (h : c.rest = ds ++ rest) :
    c.skipDigits.rest = rest := by
  have htake : rest.takeWhile Char.isDigit = [] := by
    cases rest with
    | nil => rfl
    | cons ch rest => exact List.takeWhile_cons_of_neg (by simp [hrest ch rfl])
  have hdigits : (ds ++ rest).takeWhile Char.isDigit = ds := by
    rw [List.takeWhile_append_of_pos hds.2, htake, List.append_nil]
  rw [skipDigits, h, hdigits, List.drop_left]

theorem noDigit_exponent {exponent : List Char} (h : Exponent exponent) (hrest : EndsNumber rest) :
    NoDigit (exponent ++ rest) := by
  cases h with
  | none => exact hrest.noDigit
  | some mark sign ds hmark hsign hds =>
    rcases hmark with rfl | rfl <;> exact noDigit_cons (by decide)

theorem noDigit_fraction {fraction : List Char} (h : Fraction fraction) (hrest : NoDigit rest) :
    NoDigit (fraction ++ rest) := by
  cases h with
  | none => exact hrest
  | some ds hds => exact noDigit_cons (by decide)

/-- The exponent is passed, if there is one. -/
theorem takes_exponent {exponent : List Char} (h : Exponent exponent) (hrest : EndsNumber rest)
    (hc : c.rest = exponent ++ rest) :
    Takes (if c.atExponent then c.skipExponent else .ok ((), c)) () rest := by
  cases h with
  | none =>
    have hends : EndsNumber c.rest := by rwa [hc]
    have he : c.peek ≠ some 'e' := fun hpeek => (hends 'e' hpeek).2.2.1 rfl
    have hE : c.peek ≠ some 'E' := fun hpeek => (hends 'E' hpeek).2.2.2 rfl
    rw [if_neg (by simp [atExponent, he, hE])]
    exact .ok hc
  | some mark sign ds hmark hsign hds =>
    have hnext := next_of_rest hc
    have hat : c.atExponent := by
      rcases hmark with rfl | rfl <;> simp [atExponent, peek_of_rest hc]
    rw [if_pos hat, skipExponent]
    -- behind the sign, or where it would stand, come the digits
    have hdigits : ∀ c : Cursor, c.rest = ds ++ rest →
        Takes (if c.digit?.isSome then .ok ((), c.skipDigits) else c.next.fault .badNumber) ()
          rest := by
      intro c hc
      rw [if_pos (digit?_isSome hds hc)]
      exact .ok (rest_skipDigits hds hrest.noDigit hc)
    rcases hsign with rfl | rfl | rfl
    · obtain ⟨d, rest', hd⟩ : ∃ d rest', ds = d :: rest' ∧ d.isDigit := hds.cons
      have hpeek : c.next.peek = some d := by
        rw [peek, hnext, hd.1]
        rfl
      have hplus : d ≠ '+' := isDigit_ne hd.2 (by decide)
      have hminus : d ≠ '-' := isDigit_ne hd.2 (by decide)
      simp only [hpeek, Option.some_beq_some, beq_iff_eq, Bool.or_eq_true, hplus, hminus, or_self,
        if_false]
      exact hdigits c.next hnext
    · have hplus : c.next.rest = '+' :: (ds ++ rest) := hnext
      simp only [peek_of_rest hplus, BEq.rfl, Bool.true_or, if_true]
      exact hdigits _ (next_of_rest hplus)
    · have hminus : c.next.rest = '-' :: (ds ++ rest) := hnext
      simp only [peek_of_rest hminus, BEq.rfl, Bool.or_true, if_true]
      exact hdigits _ (next_of_rest hminus)

theorem takes_skipFraction {exponent : List Char} (hds : Digits ds) (hexponent : Exponent exponent)
    (hrest : EndsNumber rest) (h : c.rest = '.' :: (ds ++ (exponent ++ rest))) :
    Takes c.skipFraction () rest := by
  have hnext := next_of_rest h
  have hdigit : c.next.digit?.isNone = false := by
    rw [← Option.not_isSome, digit?_isSome hds hnext]
    rfl
  simp only [skipFraction, hdigit, Bool.false_eq_true, if_false]
  exact takes_exponent hexponent hrest
    (rest_skipDigits hds (noDigit_exponent hexponent hrest) hnext)

/-- A number is passed behind its sign. -/
theorem takes_skipNumber (h : Magnitude text) (hrest : EndsNumber rest)
    (hc : c.rest = text ++ rest) : Takes c.skipNumber () rest := by
  obtain ⟨whole, fraction, exponent, hwhole, hzero, hfraction, hexponent⟩ := h
  rw [List.append_assoc, List.append_assoc] at hc
  have hnoDigit : NoDigit (fraction ++ (exponent ++ rest)) :=
    noDigit_fraction hfraction (noDigit_exponent hexponent hrest)
  -- what comes behind the whole part
  have hmore : ∀ c : Cursor, c.rest = fraction ++ (exponent ++ rest) →
      Takes (if c.peek == some '.' then c.skipFraction
        else if c.atExponent then c.skipExponent else .ok ((), c)) () rest := by
    intro c hc
    cases hfraction with
    | none =>
      have hpoint : (c.peek == some '.') = false := by
        rw [peek, hc]
        cases hexponent with
        | none => simpa using fun hhead => (hrest '.' hhead).2.1 rfl
        | some mark sign ds hmark hsign hds => rcases hmark with rfl | rfl <;> rfl
      rw [hpoint]
      exact takes_exponent hexponent hrest hc
    | some ds hds =>
      rw [peek_of_rest hc]
      exact takes_skipFraction hds hexponent hrest hc
  obtain ⟨d, ds, rfl, hd⟩ := hwhole.cons
  rw [skipNumber, digit?_of_rest hc hd]
  by_cases hd0 : d = '0'
  · have hwhole0 : ds = [] := (List.cons.inj (hzero (by rw [hd0]; rfl))).2
    subst hwhole0 hd0
    have hnext : c.next.rest = fraction ++ (exponent ++ rest) := next_of_rest hc
    have hnone : c.next.digit? = none := NoDigit.digit? (by rwa [hnext])
    simp only [hnone, Option.isSome_none, Bool.and_false, Bool.false_eq_true, if_false]
    exact hmore c.next hnext
  · have hvalue : d.toNat - 48 ≠ 0 := toNat_sub_ne_zero hd hd0
    simp only [hvalue, decide_false, Bool.false_and, Bool.false_eq_true, if_false]
    exact hmore c.skipDigits (rest_skipDigits hwhole hnoDigit hc)

/-! ## Names -/

theorem takes_skipName {name : Utf16} {front back : List Char} (hfront : Blank front)
    (hname : Quotes name body) (hback : Blank back)
    (h : c.rest = front ++ '"' :: (body ++ '"' :: (back ++ ':' :: rest))) :
    Takes c.skipName () rest := by
  have hquote := skipSpace_of_blank hfront (by decide) h
  simp only [skipName, peek_of_rest hquote]
  refine (takes_skipString hname (next_of_rest hquote)).bind fun c hc => ?_
  have hcolon := skipSpace_of_blank hback (by decide) hc
  simp only [peek_of_rest hcolon]
  exact .ok (next_of_rest hcolon)

/-! ## Values -/

/-- A value is passed over by every reader that has as many steps as its text has characters. -/
def Skips (text : List Char) : Prop :=
  ∀ (n : Nat) (c : Cursor) (blank rest : List Char), Blank blank → EndsNumber rest →
    text.length ≤ n → c.rest = blank ++ (text ++ rest) → Takes (skipValue n c) () rest

/-- The place where the next entry begins: behind the comma, unless it is the first one. -/
def atEntry (first : Bool) (c : Cursor) : Cursor := if first then c.skipSpace else c.skipSpace.next

/-- The next entry is found, and its name is passed if it has one. -/
theorem takes_entry {object first : Bool} (hblank : Blank blank) (hbelongs : e.Belongs object)
    (hword : Wellformed e.text)
    (h : c.rest = (if first then [] else blank ++ [',']) ++
      (e.head ++ (e.before ++ (e.text ++ rest)))) :
    ∃ ch before, c.skipSpace.peek = some ch ∧ ch ≠ close object ∧ (first ∨ ch = ',') ∧
      Blank before ∧
      Takes (if object then (c.atEntry first).skipName else .ok ((), c.atEntry first)) ()
        (before ++ (e.text ++ rest)) := by
  obtain ⟨name, ⟨hhead, hbefore, -⟩, rfl⟩ := hbelongs
  obtain ⟨ch, cs, htext, hspace, hne⟩ := hword.cons
  generalize e.head = head at hhead h
  cases first with
  | true =>
    cases hhead with
    | item =>
      have hskip : c.skipSpace.rest = e.text ++ rest := by
        rw [htext] at h ⊢
        exact skipSpace_of_blank hbefore hspace h
      refine ⟨ch, [], ?_, hne, .inl rfl, blank_nil, .ok hskip⟩
      exact peek_of_rest (hskip.trans (by rw [htext]; rfl))
    | member hfront hname hback =>
      simp only [if_true, List.nil_append, List.append_assoc, List.cons_append] at h
      have hskip := skipSpace_of_blank hfront (by decide) h
      exact ⟨'"', e.before, peek_of_rest hskip, (by decide : '"' ≠ '}'), .inl rfl, hbefore,
        takes_skipName blank_nil hname hback hskip⟩
  | false =>
    simp only [Bool.false_eq_true, if_false, List.append_assoc] at h
    have hcomma := skipSpace_of_blank hblank (by decide) h
    have hnext := next_of_rest hcomma
    refine ⟨',', e.before, peek_of_rest hcomma, ?_, .inr rfl, hbefore, ?_⟩
    · cases name
      · exact (by decide : ',' ≠ ']')
      · exact (by decide : ',' ≠ '}')
    · cases hhead with
      | item => exact .ok hnext
      | member hfront hname hback =>
        simp only [List.append_assoc, List.cons_append, List.nil_append] at hnext
        exact takes_skipName hfront hname hback hnext

/-- The next entry is passed over, and then the others. -/
theorem skipRest_of_entry {object first : Bool} {n : Nat} {ch : Char}
    (hpeek : c.skipSpace.peek = some ch) (hclose : ch ≠ close object)
    (hcomma : first ∨ ch = ',') :
    skipRest (n + 1) object first c =
      ((if object then (c.atEntry first).skipName else .ok ((), c.atEntry first)) >>= fun r =>
        skipValue n r.2 >>= fun r => skipRest n object false r.2) := by
  have hgoes : (!first && ch != ',') = false := by
    rcases hcomma with rfl | rfl <;> simp
  cases object <;>
  · rw [skipRest]
    simp only [hpeek, hgoes, Bool.false_eq_true, if_false, if_true]
    exact if_neg hclose

/-- The entries of a list or of an object are passed over up to its end. -/
theorem takes_skipRest {object first : Bool} {es : List Entry} {n : Nat} (hblank : Blank blank)
    (hbelongs : ∀ e ∈ es, e.Belongs object) (hword : ∀ e ∈ es, Wellformed e.text)
    (hskips : ∀ e ∈ es, Skips e.text) (hn : (Entry.remaining first blank es).length < n)
    (h : c.rest = Entry.remaining first blank es ++ close object :: rest) :
    Takes (skipRest n object first c) () rest := by
  induction es generalizing c n first blank with
  | nil =>
    obtain ⟨n, rfl⟩ : ∃ m, n = m + 1 := ⟨n - 1, by omega⟩
    have hclose := skipSpace_of_blank hblank (isSpace_close object) h
    have hend : close object = if object then '\x7d' else ']' := rfl
    simp only [skipRest, peek_of_rest hclose]
    rw [if_pos hend]
    exact .ok (next_of_rest hclose)
  | cons e es ih =>
    obtain ⟨n, rfl⟩ : ∃ m, n = m + 1 := ⟨n - 1, by omega⟩
    have he := hword e List.mem_cons_self
    have hafter : Blank e.after := by
      obtain ⟨name, hfits, -⟩ := hbelongs e List.mem_cons_self
      exact hfits.after
    have hlength : e.text.length + (Entry.remaining false e.after es).length ≤ n := by
      simp only [Entry.remaining, List.length_append] at hn
      omega
    have hpos : 0 < e.text.length := by
      obtain ⟨ch, cs, htext, -⟩ := he.cons
      simp [htext]
    simp only [Entry.remaining, List.append_assoc] at h
    obtain ⟨ch, before, hpeek, hclose, hcomma, hbefore, hentry⟩ :=
      takes_entry hblank (hbelongs e List.mem_cons_self) he (by simpa using h)
    rw [skipRest_of_entry hpeek hclose hcomma]
    refine hentry.bind fun c hc => ?_
    refine (hskips e List.mem_cons_self n c before _ hbefore (endsNumber_remaining object hafter)
      (by omega) hc).bind fun c hc => ?_
    exact ih hafter (fun d hd => hbelongs d (List.mem_cons_of_mem e hd))
      (fun d hd => hword d (List.mem_cons_of_mem e hd))
      (fun d hd => hskips d (List.mem_cons_of_mem e hd)) (by omega) hc

/-- A digit begins a number. -/
theorem skipValue_digit {ch : Char} {n : Nat} (h : c.skipSpace.rest = ch :: rest)
    (hch : ch.isDigit) : skipValue (n + 1) c = c.skipSpace.skipNumber := by
  rw [skipValue.eq_def]
  simp only [peek_of_rest h]
  split
  all_goals simp_all

/-- A value is passed over from its first character on, whatever white space stands before it. -/
theorem skips_cons {ch : Char} {cs : List Char} (hspace : isSpace ch = false)
    (h : ∀ (n : Nat) (c : Cursor) (rest : List Char), EndsNumber rest → cs.length ≤ n →
      c.skipSpace.rest = ch :: (cs ++ rest) → Takes (skipValue (n + 1) c) () rest) :
    Skips (ch :: cs) := by
  intro n c blank rest hblank hends hn hc
  rw [List.length_cons] at hn
  obtain ⟨n, rfl⟩ : ∃ m, n = m + 1 := ⟨n - 1, by omega⟩
  exact h n c rest hends (by omega) (skipSpace_of_blank hblank hspace hc)

/-- A list or an object is passed over if its entries are. -/
theorem skips_entries (object : Bool) {inner : List Char} {es : List Entry} (hinner : Blank inner)
    (hbelongs : ∀ e ∈ es, e.Belongs object) (hword : ∀ e ∈ es, Wellformed e.text)
    (hskips : ∀ e ∈ es, Skips e.text) :
    Skips ((if object then '\x7b' else '[') :: (Entry.between inner es ++ [close object])) := by
  refine skips_cons (by cases object <;> decide) fun n c rest hends hn hskip => ?_
  rw [List.length_append, List.length_singleton, Entry.between_eq] at hn
  rw [List.append_assoc, List.singleton_append, Entry.between_eq] at hskip
  have hrest := takes_skipRest (n := n) hinner hbelongs hword hskips (by omega) (next_of_rest hskip)
  cases object <;>
  · simp only [skipValue, peek_of_rest hskip]
    exact hrest

/-- Every well-formed value is passed over. -/
theorem skips_of_wellformed (h : Wellformed text) : Skips text := by
  induction h with
  | null =>
    refine skips_cons (by decide) fun n c rest hends hn hskip => ?_
    simp only [skipValue, peek_of_rest hskip]
    exact takes_word _ (next_of_rest hskip)
  | bool b =>
    cases b <;>
    · refine skips_cons (by decide) fun n c rest hends hn hskip => ?_
      simp only [skipValue, peek_of_rest hskip]
      exact takes_word _ (next_of_rest hskip)
  | number h =>
    obtain ⟨d, ds, rfl, hd⟩ := h.cons
    refine skips_cons (isSpace_digit hd) fun n c rest hends hn hskip => ?_
    rw [skipValue_digit hskip hd]
    exact takes_skipNumber h hends hskip
  | negative h =>
    refine skips_cons (by decide) fun n c rest hends hn hskip => ?_
    simp only [skipValue, peek_of_rest hskip]
    exact takes_skipNumber h hends (next_of_rest hskip)
  | str h =>
    refine skips_cons (by decide) fun n c rest hends hn hskip => ?_
    simp only [skipValue, peek_of_rest hskip]
    exact takes_skipString h (by simpa using next_of_rest hskip)
  | arr inner items hinner hfits h ih =>
    exact skips_entries false hinner (fun e he => ⟨none, hfits e he, rfl⟩) h ih
  | obj inner members hinner hfits h ih =>
    refine skips_entries true hinner (fun e he => ?_) h ih
    obtain ⟨name, hname⟩ := hfits e he
    exact ⟨some name, hname, rfl⟩

/-- The next value is passed over, with the white space before it. -/
theorem takes_skip (h : Wellformed text) (hblank : Blank blank) (hends : EndsNumber rest)
    (hc : c.rest = blank ++ (text ++ rest)) : Takes c.skip () rest := by
  refine skips_of_wellformed h _ c blank rest hblank hends ?_ hc
  rw [hc, List.length_append, List.length_append]
  omega

end Cursor
end LoadHook.Json
