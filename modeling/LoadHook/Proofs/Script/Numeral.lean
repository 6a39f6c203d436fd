import LoadHook.Proofs.Decimal.Whole
import LoadHook.Proofs.Json.Spelling
import LoadHook.Script.Numeric

/-!
# Whole numbers in scripts

A double keeps every whole number below 2^53 in magnitude: it is written with the digits of the
number, and every text of the number is read as it.
-/
namespace LoadHook.Script.Numeric

open Decimal
open Json (Digits Fraction Power Amount Magnitude)

variable {n : Int} {k : Nat}

theorem whole_ofInt (hn : n.natAbs < 2 ^ 53) (hpos : n ≠ 0) :
    Whole n.natAbs (ofInt n) ∧ isNegative (ofInt n) = decide (n < 0) := by
  have hne : n.natAbs ≠ 0 := Int.natAbs_ne_zero.mpr hpos
  have hnearest := nearest_mul hn hne Nat.one_ne_zero
  rw [Nat.mul_one] at hnearest
  rw [ofInt]
  by_cases hneg : n < 0
  · simpa [hneg, hnearest] using whole_neg hn hne
  · simpa [hneg, hnearest] using whole_ofBits hn hne

theorem isFinite_ofInt (hn : n.natAbs < 2 ^ 53) : Decimal.isFinite (ofInt n) := by
  by_cases hpos : n = 0
  · subst hpos
    decide
  · exact (whole_ofInt hn hpos).1.isFinite hn (Int.natAbs_ne_zero.mpr hpos)

/-- A whole number is written with its digits. -/
theorem text_ofInt (hn : n.natAbs < 2 ^ 53) : text (ofInt n) = String.ofList (intChars n) := by
  rw [text, if_pos (isFinite_ofInt hn)]
  by_cases hpos : n = 0
  · subst hpos
    decide
  · obtain ⟨hwhole, hneg⟩ := whole_ofInt hn hpos
    rw [hwhole.writeFloat_eq (by decide) (by decide) rfl hn (Int.natAbs_ne_zero.mpr hpos), hneg]
    simp [intChars]

/-! ## Lengths -/

theorem fraction_eq {x : Float} (hx : Whole k x) (hk : k < 2 ^ 53) (hpos : k ≠ 0) :
    (fraction x).1 / (fraction x).2 = k := by
  have hbits : (x.toBits &&& 0x7FFFFFFFFFFFFFFF).toNat % 2 ^ 63 = wholeBits k := by
    rw [UInt64.toNat_and]
    change (x.toBits.toNat &&& 2 ^ 63 - 1) % 2 ^ 63 = _
    rw [Nat.and_two_pow_sub_one_eq_mod, Nat.mod_mod]
    exact hx
  rw [fraction, decode_of_bits hbits hk hpos]
  dsimp only
  split
  · rw [Int.natAbs_neg, Int.natAbs_natCast]
    exact Nat.mul_div_cancel k (Nat.two_pow_pos _)
  · have hzero : shift k = 0 := by omega
    rw [significand, hzero]
    simp

theorem fraction_zero : (fraction 0).1 = 0 := by
  have hbits : (0 : Float).toBits = 0 := by decide
  have hdecode : decode ((0 : Float).toBits &&& 0x7FFFFFFFFFFFFFFF) = (0, -1074) := by
    rw [hbits]
    decide
  rw [fraction, hdecode]
  dsimp only
  rw [if_pos (by decide)]

theorem truncate_zero : Decimal.isFinite (nearest 0 1) ∧ truncate (nearest 0 1) = 0 := by
  have hzero : nearest 0 1 = 0 := by simp [nearest]
  have hfinite : Decimal.isFinite 0 := by decide
  rw [hzero]
  refine ⟨hfinite, ?_⟩
  rw [truncate, if_pos hfinite]
  dsimp only
  rw [fraction_zero, Nat.zero_div]
  simp

theorem truncate_of_whole {x : Float} (hx : Whole k x) (hk : k < 2 ^ 53) (hpos : k ≠ 0)
    (hneg : isNegative x = false) : truncate x = k := by
  rw [truncate, if_pos (hx.isFinite hk hpos)]
  simp only [hneg, Bool.false_eq_true, if_false, fraction_eq hx hk hpos]

/-- A natural that is kept as a double is found in it again. -/
theorem truncate_toFloat (hk : k < 2 ^ 53) :
    Decimal.isFinite k.toFloat ∧ truncate k.toFloat = k := by
  rw [toFloat_nat hk]
  by_cases hpos : k = 0
  · rw [hpos]
    exact truncate_zero
  · have hnearest := nearest_mul hk hpos Nat.one_ne_zero
    rw [Nat.mul_one] at hnearest
    obtain ⟨hwhole, hneg⟩ := whole_ofBits hk hpos
    rw [hnearest]
    exact ⟨hwhole.isFinite hk hpos, truncate_of_whole hwhole hk hpos hneg⟩

theorem isNaN_of_isFinite {x : Float} (hx : Decimal.isFinite x) : x.isNaN = false := by
  rw [Float.isNaN_eq_decide_eq_nan, decide_eq_false_iff_not]
  rintro rfl
  revert hx
  decide

/-! ## Reading a number -/

theorem hexDigit?_of_isDigit {c : Char} (hc : c.isDigit) :
    Token.hexDigit? c = some (c.toNat - 48) ∧ c.toNat - 48 < 10 := by
  have hrange : 48 ≤ c.toNat ∧ c.toNat ≤ 57 := by
    simp only [Char.isDigit, Bool.and_eq_true, decide_eq_true_eq, UInt32.le_iff_toNat_le] at hc
    exact hc
  exact ⟨by rw [Token.hexDigit?, if_pos hc], by omega⟩

theorem digits?_eq {ds : List Char} (hds : ∀ d ∈ ds, d.isDigit) :
    Token.digits? 10 ds = some (Nat.ofDigitChars 10 ds 0) := by
  unfold Token.digits?
  generalize 0 = read
  induction ds generalizing read with
  | nil => simp
  | cons d ds ih =>
    obtain ⟨hdigit, hlt⟩ := hexDigit?_of_isDigit (hds d List.mem_cons_self)
    rw [List.foldl_cons, Nat.ofDigitChars_cons, Nat.mul_comm 10,
      ← ih (fun e he => hds e (List.mem_cons_of_mem d he))]
    simp [hdigit, hlt]

/-- Digits are taken as far as they go. -/
theorem takeWhile_digits {α : Type} {p : α → Bool} {ds rest : List α} (hds : ∀ d ∈ ds, p d)
    (hrest : ∀ c ∈ rest.head?, p c = false) :
    (ds ++ rest).takeWhile p = ds ∧ (ds ++ rest).drop ds.length = rest := by
  refine ⟨?_, List.drop_left⟩
  rw [List.takeWhile_append_of_pos hds]
  cases rest with
  | nil => simp
  | cons c rest => simp [hrest c rfl]

/-- A text that begins with no sign is left as it is. -/
theorem signAt_digits {d : Char} (hd : d.isDigit) (rest : List Char) :
    signAt (d :: rest) = (false, d :: rest) := by
  have hminus : d ≠ '-' := Json.isDigit_ne hd (by decide)
  have hplus : d ≠ '+' := Json.isDigit_ne hd (by decide)
  unfold signAt
  split <;> simp_all

theorem exponentAt_eq {e : Int} {exponent : List Char} (h : Power e exponent) :
    exponentAt exponent = (e, []) := by
  have hdigits {ds : List Char} (hds : Digits ds) :
      ds.takeWhile Char.isDigit = ds ∧ ds.drop ds.length = [] ∧ ds.isEmpty = false ∧
      (Token.digits? 10 ds).getD 0 = Nat.ofDigitChars 10 ds 0 := by
    refine ⟨List.takeWhile_eq_self_iff.mpr hds.2, List.drop_length, ?_, ?_⟩
    · simpa using hds.1
    · rw [digits?_eq hds.2, Option.getD_some]
  have hmark {mark : Char} (h : mark = 'e' ∨ mark = 'E') :
      (decide (mark = 'e') || decide (mark = 'E')) = true := by simpa using h
  cases h with
  | none => rfl
  | up mark sign ds hm hsign hds =>
    obtain ⟨d, rest, rfl, hd⟩ := hds.cons
    obtain ⟨htake, hdrop, hne, hvalue⟩ := hdigits hds
    have hsigned : signAt (sign ++ d :: rest) = (false, d :: rest) := by
      rcases hsign with rfl | rfl
      · exact signAt_digits hd rest
      · rfl
    simp only [exponentAt, hmark hm, if_true, hsigned, htake, hne, Bool.false_eq_true, if_false,
      hvalue, hdrop]
  | down mark ds hm hds =>
    obtain ⟨htake, hdrop, hne, hvalue⟩ := hdigits hds
    simp only [exponentAt, hmark hm, if_true, signAt, htake, hne, Bool.false_eq_true, if_false,
      hvalue, hdrop]

/-- No digit begins an exponent. -/
theorem head?_exponent {e : Int} {exponent : List Char} (h : Power e exponent) :
    ∀ c ∈ exponent.head?, c.isDigit = false ∧ c ≠ '.' := by
  cases h with
  | none => simp
  | up mark sign ds hm => rcases hm with rfl | rfl <;> simp
  | down mark ds hm => rcases hm with rfl | rfl <;> simp

theorem placesAt_eq {e : Int} {fraction exponent : List Char} (hfraction : Fraction fraction)
    (hexponent : Power e exponent) :
    placesAt true (fraction ++ exponent) = (fraction.tail, exponent) := by
  have hhead := head?_exponent hexponent
  cases hfraction with
  | none =>
    rw [List.nil_append, placesAt.eq_def]
    split
    · next more => exact absurd rfl (hhead '.' rfl).2
    · rfl
  | some ds hds =>
    obtain ⟨htake, hdrop⟩ := takeWhile_digits hds.2 fun c hc => (hhead c hc).1
    simp only [List.cons_append, placesAt, htake, hdrop, Bool.not_true, Bool.false_and,
      Bool.false_eq_true, if_false, List.tail_cons]

theorem isDigit_of_fraction {fraction : List Char} (h : Fraction fraction) :
    ∀ d ∈ fraction.tail, d.isDigit := by
  cases h with
  | none => simp
  | some ds hds => exact hds.2

/-- The sign of a number that is written. -/
def minus (negative : Bool) : List Char := if negative then ['-'] else []

/-- A number as it is written is read as the double nearest to it. -/
theorem decimalAt_eq (negative : Bool) {whole fraction exponent : List Char} {e : Int}
    (hwhole : Digits whole) (hfraction : Fraction fraction) (hexponent : Power e exponent) :
    decimalAt (minus negative ++ (whole ++ fraction ++ exponent)) =
      some (if negative then
          -toFloat (Nat.ofDigitChars 10 (whole ++ fraction.tail) 0) (e - fraction.tail.length)
        else toFloat (Nat.ofDigitChars 10 (whole ++ fraction.tail) 0) (e - fraction.tail.length),
        []) := by
  have hall : ∀ d ∈ whole ++ fraction.tail, d.isDigit :=
    List.forall_mem_append.mpr ⟨hwhole.2, isDigit_of_fraction hfraction⟩
  have hnext : ∀ c ∈ (fraction ++ exponent).head?, c.isDigit = false := by
    cases hfraction with
    | none => exact fun c hc => (head?_exponent hexponent c hc).1
    | some ds hds => simp
  have hne : whole.isEmpty = false := by simpa using hwhole.1
  obtain ⟨htake, hdrop⟩ := takeWhile_digits hwhole.2 hnext
  obtain ⟨d, ds, hd, hdigit⟩ := hwhole.cons
  have hsign : signAt (minus negative ++ (whole ++ (fraction ++ exponent))) =
      (negative, whole ++ (fraction ++ exponent)) := by
    cases negative
    · rw [hd]
      exact signAt_digits hdigit _
    · rfl
  have hword : ("Infinity".toList.isPrefixOf (whole ++ (fraction ++ exponent))) = false := by
    have hI : 'I' ≠ d := (Json.isDigit_ne hdigit (by decide)).symm
    rw [hd]
    simp [List.isPrefixOf, hI]
  simp only [decimalAt, List.append_assoc, hsign, hword, Bool.false_eq_true, if_false, htake, hdrop,
    hne, Bool.not_false, placesAt_eq hfraction hexponent, Bool.false_and,
    exponentAt_eq hexponent, digits?_eq hall, Option.getD_some]

/-- A whole number is read from each of its texts. -/
theorem decimalAt_amount (negative : Bool) {text : List Char} (h : Amount k text) (hk : k < 2 ^ 53)
    (hpos : negative → k ≠ 0) :
    decimalAt (minus negative ++ text) = some (ofInt (if negative then -k else k), []) := by
  obtain ⟨whole, fraction, exponent, e, hwhole, -, hfraction, hexponent, hvalue⟩ := h
  rw [decimalAt_eq negative hwhole hfraction hexponent, toFloat_eq hk hvalue]
  cases negative with
  | false => simp [ofInt]
  | true => simpa [ofInt] using fun hzero => absurd hzero (hpos rfl)

end LoadHook.Script.Numeric
