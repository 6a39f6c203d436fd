import LoadHook.Json.Skip
import LoadHook.Proofs.Json.Grammar
import LoadHook.Proofs.Text.Utf16

/-!
# Reading strings

A string is read as the text whose units its body writes, however they are written: a character may
stand for itself, behind a backslash, or as the digits of its one or two units. A string that is
passed over may hold any units.
-/
namespace LoadHook.Json

open Text (Utf16)

variable {rest body cs ds : List Char} {ch : Char} {u v : UInt16} {us : Utf16}

/-! ## A text, character by character -/

/-- The ways to write a text between quotes. -/
inductive Spelled : List Char → List Char → Prop where
  | nil : Spelled [] []
  | plain {cs body : List Char} (ch : Char) (hch : 0x20 ≤ ch.toNat ∧ ch ≠ '"' ∧ ch ≠ '\\')
      (h : Spelled cs body) : Spelled (ch :: cs) (ch :: body)
  | short {cs body : List Char} (letter ch : Char) (he : (letter, ch) ∈ shortEscapes)
      (h : Spelled cs body) : Spelled (ch :: cs) ('\\' :: letter :: body)
  | unit {cs body : List Char} (u : UInt16) (ds : List Char) (hds : UnitDigits u ds)
      (hlead : Utf16.isLead u = false) (htrail : Utf16.isTrail u = false) (h : Spelled cs body) :
      Spelled (Char.ofNat u.toNat :: cs) ('\\' :: 'u' :: (ds ++ body))
  | pair {cs body : List Char} (u v : UInt16) (ds es : List Char) (hds : UnitDigits u ds)
      (hes : UnitDigits v es) (hlead : Utf16.isLead u) (htrail : Utf16.isTrail v)
      (h : Spelled cs body) :
      Spelled (Char.ofNat (Utf16.pairPoint u v) :: cs)
        ('\\' :: 'u' :: (ds ++ '\\' :: 'u' :: (es ++ body)))

/-- What writes the units of a text writes the text.

The induction is on the ways to write units. The first half of a pair makes a character only
together with the second one, so that the statement says of a body that begins with a second half
too what stands behind it. -/
theorem spelled_of_quotes (h : Quotes us body) :
    (∀ cs, us = Utf16.ofChars cs → Spelled cs body) ∧
    ∀ v cs, Utf16.isTrail v → us = v :: Utf16.ofChars cs →
      ∃ ds rest, body = '\\' :: 'u' :: (ds ++ rest) ∧ UnitDigits v ds ∧ Spelled cs rest := by
  induction h with
  | nil =>
    refine ⟨fun cs hcs => ?_, nofun⟩
    cases cs with
    | nil => exact .nil
    | cons ch cs =>
      obtain ⟨u, us, hne⟩ := Utf16.ofChar_cons ch
      rw [Utf16.ofChars, List.flatMap_cons, hne] at hcs
      cases hcs
  | plain ch hch h ih =>
    refine ⟨fun cs hcs => ?_, fun v cs hv hcs => absurd hcs (Utf16.ofChar_append_ne ch hv)⟩
    obtain ⟨rest, rfl, hus⟩ := Utf16.ofChars_eq_append hcs.symm
    exact .plain ch hch (ih.1 rest hus)
  | short letter ch he h ih =>
    refine ⟨fun cs hcs => ?_, fun v cs hv hcs => absurd hcs (Utf16.ofChar_append_ne ch hv)⟩
    obtain ⟨rest, rfl, hus⟩ := Utf16.ofChars_eq_append hcs.symm
    exact .short letter ch he (ih.1 rest hus)
  | @unit us body u ds hds h ih =>
    refine ⟨fun cs hcs => ?_, fun v cs hv hcs => ?_⟩
    · rcases Utf16.ofChars_eq_cons hcs.symm with
        ⟨hlead, htrail, rest, rfl, hus⟩ | ⟨v, rest, hlead, htrail, rfl, hus⟩
      · exact .unit u ds hds hlead htrail (ih.1 rest hus)
      · obtain ⟨es, body, rfl, hes, hbody⟩ := ih.2 v rest htrail hus
        exact .pair u v ds es hds hes hlead htrail hbody
    · cases hcs
      exact ⟨ds, body, rfl, hds, ih.1 cs rfl⟩

/-- No way to write a text is shorter than its compact text. -/
theorem Spelled.length_le (h : Spelled cs body) :
    (cs.flatMap escapeChar).length ≤ body.length := by
  induction h with
  | nil => exact Nat.le_refl 0
  | @plain cs body ch hch h ih =>
    have hplain : escapeChar ch = [ch] := escapeChar_eq_self hch
    simp only [List.flatMap_cons, List.length_append, List.length_cons, hplain, List.length_nil]
    omega
  | @short cs body letter ch he h ih =>
    have hall : ∀ e ∈ shortEscapes, (escapeChar e.2).length ≤ 2 := by decide
    have hshort : (escapeChar ch).length ≤ 2 := hall _ he
    simp only [List.flatMap_cons, List.length_append, List.length_cons]
    omega
  | unit u ds hds hlead htrail h ih =>
    have hlength := hds.length_eq
    have hchar := length_escapeChar_le (Char.ofNat u.toNat)
    simp only [List.flatMap_cons, List.length_append, List.length_cons]
    omega
  | pair u v ds es hds hes hlead htrail h ih =>
    have hlength := hds.length_eq
    have hchar := length_escapeChar_le (Char.ofNat (Utf16.pairPoint u v))
    simp only [List.flatMap_cons, List.length_append, List.length_cons]
    omega

namespace Cursor

variable {c : Cursor}

/-! ## Digits of a unit -/

theorem hexValue_hexDigit (n : Nat) : hexValue (hexDigit n) = some (n % 16) := by
  have hall : ∀ m < 16, hexValue (Nat.digitChar m) = some m := by decide
  exact hall (n % 16) (Nat.mod_lt n (by decide))

/-- The value of a digit does not depend on its case. -/
theorem hexValue_toLower (d : Char) : hexValue d.toLower = hexValue d := by
  by_cases hd : 65 ≤ d.toNat ∧ d.toNat ≤ 90
  · have hall : ∀ n ≤ 90, 65 ≤ n → hexValue (Char.ofNat n).toLower = hexValue (Char.ofNat n) := by
      decide
    have h := hall d.toNat hd.2 hd.1
    rwa [Char.ofNat_toNat] at h
  · have hupper : ¬(d.val ≥ 'A'.val ∧ d.val ≤ 'Z'.val) := by
      simpa [UInt32.le_iff_toNat_le] using hd
    have hself : d.toLower = d := dif_neg hupper
    rw [hself]

/-- The digits of a unit have its value. -/
theorem hexNumber_of_unitDigits (h : UnitDigits u ds) :
    ∃ a b d e, ds = [a, b, d, e] ∧ hexNumber [a, b, d, e] = some u.toNat := by
  have hlength := h.length_eq
  obtain ⟨a, b, d, e, rfl⟩ : ∃ a b d e, ds = [a, b, d, e] := by
    match ds, hlength with
    | [a, b, d, e], _ => exact ⟨a, b, d, e, rfl⟩
  refine ⟨a, b, d, e, rfl, ?_⟩
  simp only [UnitDigits, List.map_cons, List.map_nil, List.cons.injEq, and_true] at h
  obtain ⟨ha, hb, hd, he⟩ := h
  have hvalue : ∀ {x : Char} {n : Nat}, x.toLower = hexDigit n → hexValue x = some (n % 16) := by
    intro x n hx
    rw [← hexValue_toLower, hx, hexValue_hexDigit]
  have hlt : u.toNat < 0x10000 := u.toNat_lt
  simp only [hexNumber, List.foldl_cons, List.foldl_nil, hvalue ha, hvalue hb, hvalue hd, hvalue he]
  exact congrArg some (by omega)

theorem takes_hex4 (hds : UnitDigits u ds) (h : c.rest = ds ++ rest) :
    Takes c.hex4 u.toNat rest := by
  obtain ⟨a, b, d, e, rfl, hvalue⟩ := hexNumber_of_unitDigits hds
  rw [hex4, h]
  simp only [List.cons_append, List.nil_append, hvalue]
  exact .ok rfl

theorem simpleEscape_of_mem {letter : Char} (h : (letter, ch) ∈ shortEscapes) :
    letter ≠ 'u' ∧ simpleEscape letter = some ch := by
  have hall : ∀ e ∈ shortEscapes, e.1 ≠ 'u' ∧ simpleEscape e.1 = some e.2 := by decide
  exact hall _ h

/-! ## Reading -/

/-- A unit that is no half of a pair is read as its character. -/
theorem takes_escape_unit (hds : UnitDigits u ds) (hlead : Utf16.isLead u = false)
    (htrail : Utf16.isTrail u = false) (h : c.rest = 'u' :: (ds ++ rest)) :
    Takes c.escape (Char.ofNat u.toNat) rest := by
  rw [Bool.eq_false_iff, ne_eq, Utf16.isLead_iff] at hlead
  rw [Bool.eq_false_iff, ne_eq, Utf16.isTrail_iff] at htrail
  rw [escape, peek_of_rest h]
  refine (takes_hex4 hds (next_of_rest h)).bind fun c hc => ?_
  simp only [Bool.and_eq_true, decide_eq_true_eq, hlead, htrail, if_false]
  exact .ok hc

/-- The two units of a pair are read as its character. -/
theorem takes_escape_pair {es : List Char} (hds : UnitDigits u ds) (hes : UnitDigits v es)
    (hlead : Utf16.isLead u) (htrail : Utf16.isTrail v)
    (h : c.rest = 'u' :: (ds ++ '\\' :: 'u' :: (es ++ rest))) :
    Takes c.escape (Char.ofNat (Utf16.pairPoint u v)) rest := by
  rw [Utf16.isLead_iff] at hlead
  rw [Utf16.isTrail_iff] at htrail
  rw [escape, peek_of_rest h]
  refine (takes_hex4 hds (next_of_rest h)).bind fun c hc => ?_
  have hnot : ¬(0xDC00 ≤ u.toNat ∧ u.toNat ≤ 0xDFFF) := by omega
  simp only [Bool.and_eq_true, decide_eq_true_eq, hnot, hlead, if_false, if_true, and_self]
  have hmark := next_of_rest hc
  rw [trailEscape, peek_of_rest hc]
  simp only [bne_self_eq_false, Bool.false_eq_true, if_false, peek_of_rest hmark]
  refine (takes_hex4 hes (next_of_rest hmark)).bind fun c hc => ?_
  have hin : ¬(v.toNat < 0xDC00 ∨ v.toNat > 0xDFFF) := by omega
  simp only [Bool.or_eq_true, decide_eq_true_eq, hin, if_false]
  exact .ok hc

/-- This body is read as this text, whatever has been read before. -/
def ReadAs (body cs : List Char) : Prop :=
  ∀ (n : Nat) (c : Cursor) (read rest : List Char), body.length < n →
    c.rest = body ++ '"' :: rest →
    Takes (stringFrom n c read) (String.ofList (read.reverse ++ cs)) rest

theorem ReadAs.nil : ReadAs [] [] := by
  intro n c read rest hn h
  obtain ⟨n, rfl⟩ : ∃ m, n = m + 1 := ⟨n - 1, by simp at hn; omega⟩
  rw [stringFrom, peek_of_rest h, List.append_nil]
  exact .ok (next_of_rest h)

/-- One more character has been read. -/
theorem ReadAs.next (hbody : ReadAs body cs) {n : Nat} {c : Cursor} {read : List Char}
    (hn : body.length < n) (h : c.rest = body ++ '"' :: rest) :
    Takes (stringFrom n c (ch :: read)) (String.ofList (read.reverse ++ ch :: cs)) rest := by
  have htakes := hbody n c (ch :: read) rest hn h
  rwa [List.reverse_cons, List.append_assoc] at htakes

theorem ReadAs.plain (hch : 0x20 ≤ ch.toNat ∧ ch ≠ '"' ∧ ch ≠ '\\') (hbody : ReadAs body cs) :
    ReadAs (ch :: body) (ch :: cs) := by
  intro n c read rest hn h
  obtain ⟨n, rfl⟩ : ∃ m, n = m + 1 := ⟨n - 1, by simp at hn; omega⟩
  rw [stringFrom, peek_of_rest h]
  split
  · contradiction
  · next heq => exact absurd (Option.some.inj heq) hch.2.1
  · next heq => exact absurd (Option.some.inj heq) hch.2.2
  · next heq =>
    cases heq
    rw [if_neg (Nat.not_lt.mpr hch.1)]
    exact hbody.next (by simpa using hn) (next_of_rest h)

theorem ReadAs.escape (part : List Char) (hbody : ReadAs body cs)
    (hpart : ∀ (c : Cursor) (rest : List Char), c.rest = part ++ rest → Takes c.escape ch rest) :
    ReadAs ('\\' :: (part ++ body)) (ch :: cs) := by
  intro n c read rest hn h
  obtain ⟨n, rfl⟩ : ∃ m, n = m + 1 := ⟨n - 1, by simp at hn; omega⟩
  rw [List.cons_append, List.append_assoc] at h
  rw [stringFrom, peek_of_rest h]
  refine (hpart _ _ (next_of_rest h)).bind fun c hc => hbody.next ?_ hc
  simp only [List.length_cons, List.length_append] at hn
  omega

theorem readAs_of_spelled (h : Spelled cs body) : ReadAs body cs := by
  induction h with
  | nil => exact .nil
  | plain ch hch h ih => exact .plain hch ih
  | short letter ch he h ih =>
    obtain ⟨hu, hch⟩ := simpleEscape_of_mem he
    exact ih.escape [letter] fun c rest hc => takes_escape_simple hc hu hch
  | unit u ds hds hlead htrail h ih =>
    exact ih.escape ('u' :: ds) fun c rest hc => takes_escape_unit hds hlead htrail hc
  | pair u v ds es hds hes hlead htrail h ih =>
    have hread := ih.escape ('u' :: (ds ++ '\\' :: 'u' :: es)) fun c rest hc =>
      takes_escape_pair hds hes hlead htrail (by simpa using hc)
    simpa using hread

/-- A string is read as its text behind the opening quote. -/
theorem takes_string_of_quotes {s : String} (hbody : Quotes (Utf16.ofString s) body)
    (h : c.rest = body ++ '"' :: rest) : Takes c.string s rest := by
  have hlength : body.length < c.rest.length + 1 := by
    rw [h, List.length_append]
    omega
  have hspelled := (spelled_of_quotes hbody).1 s.toList rfl
  have htakes := readAs_of_spelled hspelled _ c [] rest hlength h
  rwa [List.reverse_nil, List.nil_append, String.ofList_toList] at htakes

/-! ## Passing over -/

theorem takes_skipEscape_short {letter : Char} (he : (letter, ch) ∈ shortEscapes)
    (h : c.rest = letter :: rest) : Takes c.skipEscape () rest := by
  obtain ⟨hu, hch⟩ := simpleEscape_of_mem he
  rw [skipEscape, peek_of_rest h]
  split
  · contradiction
  · next heq => exact absurd (Option.some.inj heq) hu
  · next heq =>
    cases heq
    rw [hch]
    exact .ok (next_of_rest h)

theorem takes_skipEscape_unit (hds : UnitDigits u ds) (h : c.rest = 'u' :: (ds ++ rest)) :
    Takes c.skipEscape () rest := by
  rw [skipEscape, peek_of_rest h]
  exact (takes_hex4 hds (next_of_rest h)).bind fun c hc => .ok hc

/-- This body is passed over up to the quote behind it. -/
def PassedOver (body : List Char) : Prop :=
  ∀ (n : Nat) (c : Cursor) (rest : List Char), body.length < n →
    c.rest = body ++ '"' :: rest → Takes (skipStringUpTo n c) () rest

theorem PassedOver.nil : PassedOver [] := by
  intro n c rest hn h
  obtain ⟨n, rfl⟩ : ∃ m, n = m + 1 := ⟨n - 1, by simp at hn; omega⟩
  rw [skipStringUpTo, peek_of_rest h]
  exact .ok (next_of_rest h)

theorem PassedOver.plain (hch : 0x20 ≤ ch.toNat ∧ ch ≠ '"' ∧ ch ≠ '\\')
    (hbody : PassedOver body) : PassedOver (ch :: body) := by
  intro n c rest hn h
  obtain ⟨n, rfl⟩ : ∃ m, n = m + 1 := ⟨n - 1, by simp at hn; omega⟩
  rw [skipStringUpTo, peek_of_rest h]
  split
  · contradiction
  · next heq => exact absurd (Option.some.inj heq) hch.2.1
  · next heq => exact absurd (Option.some.inj heq) hch.2.2
  · next heq =>
    cases heq
    rw [if_neg (Nat.not_lt.mpr hch.1)]
    exact hbody n c.next rest (by simpa using hn) (next_of_rest h)

theorem PassedOver.escape (part : List Char) (hbody : PassedOver body)
    (hpart : ∀ (c : Cursor) (rest : List Char), c.rest = part ++ rest →
      Takes c.skipEscape () rest) : PassedOver ('\\' :: (part ++ body)) := by
  intro n c rest hn h
  obtain ⟨n, rfl⟩ : ∃ m, n = m + 1 := ⟨n - 1, by simp at hn; omega⟩
  rw [List.cons_append, List.append_assoc] at h
  rw [skipStringUpTo, peek_of_rest h]
  refine (hpart _ _ (next_of_rest h)).bind fun c hc => hbody n c rest ?_ hc
  simp only [List.length_cons, List.length_append] at hn
  omega

theorem passedOver_of_quotes (h : Quotes us body) : PassedOver body := by
  induction h with
  | nil => exact .nil
  | plain ch hch h ih => exact .plain hch ih
  | short letter ch he h ih =>
    exact ih.escape [letter] fun c rest hc => takes_skipEscape_short he hc
  | unit u ds hds h ih => exact ih.escape ('u' :: ds) fun c rest hc => takes_skipEscape_unit hds hc

/-- A string is passed over behind its opening quote. -/
theorem takes_skipString (hbody : Quotes us body) (h : c.rest = body ++ '"' :: rest) :
    Takes c.skipString () rest := by
  refine passedOver_of_quotes hbody _ c rest ?_ h
  rw [h, List.length_append]
  omega

end Cursor
end LoadHook.Json
