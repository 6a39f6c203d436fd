import LoadHook.Decimal.Notation
import Mathlib

/-!
# Whole numbers as doubles

A whole number below `2 ^ 53` is a double: its significand is the number moved to the left until it
fills 53 bits, and rounding has nothing to do, from whatever fraction the number is made. The
shortest decimal that is read as this double is the number again, so that it is written with its own
digits. A decimal that is a whole number, with zeros behind the point or a power of ten, is read as
the double of the number.
-/
namespace LoadHook.Decimal

variable {n d : Nat}

/-- How far a whole number is moved to the left to fill the significand of a double. -/
def shift (n : Nat) : Nat := 52 - n.log2

/-- The significand of a whole number. -/
def significand (n : Nat) : Nat := n * 2 ^ shift n

/-- The bits of the double that a whole number other than zero is. -/
def wholeBits (n : Nat) : Nat := (1075 - shift n) * 2 ^ 52 + (significand n - 2 ^ 52)

theorem log2_le (hn : n < 2 ^ 53) (hpos : n ≠ 0) : n.log2 ≤ 52 :=
  Nat.le_of_lt_succ ((Nat.log2_lt hpos).mpr hn)

theorem significand_bounds (hn : n < 2 ^ 53) (hpos : n ≠ 0) :
    2 ^ 52 ≤ significand n ∧ significand n < 2 ^ 53 := by
  have hlog := log2_le hn hpos
  have hlow := Nat.log2_self_le hpos
  have hhigh := Nat.lt_log2_self (n := n)
  have hsplit : (2 : Nat) ^ 52 = 2 ^ n.log2 * 2 ^ shift n := by
    rw [← Nat.pow_add, shift]; congr 1; omega
  have hsplit' : (2 : Nat) ^ 53 = 2 ^ (n.log2 + 1) * 2 ^ shift n := by
    rw [← Nat.pow_add, shift]; congr 1; omega
  rw [significand, hsplit, hsplit']
  exact ⟨Nat.mul_le_mul_right _ hlow, Nat.mul_lt_mul_of_pos_right hhigh (Nat.two_pow_pos _)⟩

theorem log2_mul_cases (hn : n ≠ 0) (hd : d ≠ 0) :
    (n * d).log2 = n.log2 + d.log2 ∨ (n * d).log2 = n.log2 + d.log2 + 1 := by
  have h1 := Nat.log2_self_le hn
  have h2 := Nat.log2_self_le hd
  have h3 := Nat.lt_log2_self (n := n)
  have h4 := Nat.lt_log2_self (n := d)
  have hlow : 2 ^ (n.log2 + d.log2) ≤ n * d := by
    rw [Nat.pow_add]; exact Nat.mul_le_mul h1 h2
  have hhigh : n * d < 2 ^ (n.log2 + d.log2 + 2) := by
    calc n * d < 2 ^ (n.log2 + 1) * 2 ^ (d.log2 + 1) := Nat.mul_lt_mul'' h3 h4
      _ = 2 ^ (n.log2 + d.log2 + 2) := by rw [← Nat.pow_add]; congr 1; omega
  have hne : n * d ≠ 0 := Nat.mul_ne_zero hn hd
  have hle := (Nat.le_log2 hne).mpr hlow
  have hlt := (Nat.log2_lt hne).mpr hhigh
  omega

/-- The last bit of a whole number, however it is written as a fraction. -/
theorem lastBit_mul (hn : n < 2 ^ 53) (hpos : n ≠ 0) (hd : d ≠ 0) :
    lastBit (n * d) d = -(shift n : Int) := by
  have hlog := log2_le hn hpos
  obtain ⟨hlow, hhigh⟩ := significand_bounds hn hpos
  have hdpos := Nat.pos_of_ne_zero hd
  unfold lastBit
  rcases log2_mul_cases hpos hd with h | h
  · have hguess : ((n * d).log2 : Int) - (d.log2 : Int) - 52 = -(shift n : Int) := by
      rw [h, shift]; omega
    simp only [hguess]
    have hbelow : ¬ (if -(shift n : Int) < 0
        then n * d * Nat.pow 2 (-(shift n : Int)).natAbs < d * Nat.pow 2 52
        else n * d < d * Nat.pow 2 (-(shift n : Int)).natAbs * Nat.pow 2 52) := by
      rw [Int.natAbs_neg, Int.natAbs_natCast]
      split
      · rw [Nat.mul_right_comm, Nat.mul_comm]
        exact Nat.not_lt.mpr (Nat.mul_le_mul_left d hlow)
      · have hzero : shift n = 0 := by omega
        rw [significand, hzero] at hlow
        rw [hzero, Nat.mul_comm]
        simpa using Nat.mul_le_mul_left d hlow
    rw [if_neg hbelow, shift]
    omega
  · have hguess : ((n * d).log2 : Int) - (d.log2 : Int) - 52 = 1 - (shift n : Int) := by
      rw [h, shift]; omega
    simp only [hguess]
    have hbelow : if 1 - (shift n : Int) < 0
        then n * d * Nat.pow 2 (1 - (shift n : Int)).natAbs < d * Nat.pow 2 52
        else n * d < d * Nat.pow 2 (1 - (shift n : Int)).natAbs * Nat.pow 2 52 := by
      rw [significand] at hhigh
      split
      · obtain ⟨k, hk⟩ : ∃ k, shift n = k + 1 := ⟨shift n - 1, by omega⟩
        have habs : (1 - (shift n : Int)).natAbs = k := by omega
        rw [hk, Nat.pow_succ, ← Nat.mul_assoc] at hhigh
        have hhalf : n * 2 ^ k < 2 ^ 52 := by omega
        rw [habs, Nat.mul_right_comm, Nat.mul_comm]
        exact Nat.mul_lt_mul_of_pos_left hhalf hdpos
      · obtain hk | hk : shift n = 0 ∨ shift n = 1 := by omega
        · rw [hk] at hhigh ⊢
          rw [Nat.mul_comm, Nat.mul_assoc]
          exact Nat.mul_lt_mul_of_pos_left (by simpa using hhigh) hdpos
        · rw [hk] at hhigh ⊢
          rw [Nat.mul_comm, Nat.mul_assoc]
          exact Nat.mul_lt_mul_of_pos_left (by simp; omega) hdpos
    rw [if_pos hbelow, shift]
    omega

theorem roundDiv_mul (n : Nat) (hd : d ≠ 0) : roundDiv (n * d) d = n := by
  have hpos := Nat.pos_of_ne_zero hd
  simp [roundDiv, Nat.mul_div_cancel n hpos, hpos]

/-- A whole number below `2 ^ 53` is a double, however it is written as a fraction. -/
theorem nearest_mul (hn : n < 2 ^ 53) (hpos : n ≠ 0) (hd : d ≠ 0) :
    nearest (n * d) d = Float.ofBits (wholeBits n).toUInt64 := by
  obtain ⟨hlow, hhigh⟩ := significand_bounds hn hpos
  have hround : (if -(shift n : Int) < 0
      then roundDiv (n * d * Nat.pow 2 (-(shift n : Int)).natAbs) d
      else roundDiv (n * d) (d * Nat.pow 2 (-(shift n : Int)).natAbs)) = significand n := by
    rw [Int.natAbs_neg, Int.natAbs_natCast]
    split
    · rw [Nat.mul_right_comm]
      exact roundDiv_mul _ hd
    · have hzero : shift n = 0 := by omega
      rw [hzero, significand, hzero]
      simpa using roundDiv_mul n hd
  rw [nearest, if_neg (Nat.mul_ne_zero hpos hd)]
  simp only [lastBit_mul hn hpos hd, hround]
  have hne : significand n ≠ Nat.pow 2 53 := Nat.ne_of_lt hhigh
  have hnot : ¬ significand n < Nat.pow 2 52 := Nat.not_lt.mpr hlow
  have hshift : shift n ≤ 52 := Nat.sub_le _ _
  have hsmall : ¬ -(shift n : Int) > 971 := by omega
  have hexp : (-(shift n : Int) + 1075).toNat = 1075 - shift n := by omega
  simp only [pack, if_neg hne, if_neg hnot, if_neg hsmall, hexp]
  rfl

/-! ## Bits -/

theorem wholeBits_lt (hn : n < 2 ^ 53) (hpos : n ≠ 0) :
    wholeBits n / 2 ^ 52 = 1075 - shift n ∧ wholeBits n % 2 ^ 52 = significand n - 2 ^ 52 := by
  obtain ⟨hlow, hhigh⟩ := significand_bounds hn hpos
  have hfraction : significand n - 2 ^ 52 < 2 ^ 52 := by omega
  unfold wholeBits
  generalize significand n - 2 ^ 52 = f at hfraction
  generalize 1075 - shift n = e
  omega

section Bits

open Float.Model Float.Model.UnpackedFloat

theorem toNat_unpackExponent (b : UInt64) :
    (@unpackExponent Format.binary64 b.toBitVec).toNat = b.toNat / 2 ^ 52 % 2 ^ 11 := by
  rw [unpackExponent_def, BitVec.extractLsb'_toNat, Nat.shiftRight_eq_div_pow]
  rfl

/-- Bits that stand for a number are kept. -/
theorem toBits_ofBits {b : UInt64} (hb : b.toNat / 2 ^ 52 % 2 ^ 11 < 2 ^ 11 - 1) :
    (Float.ofBits b).toBits = b := by
  have hexp : @unpackExponent Format.binary64 b.toBitVec ≠ -1#_ := by
    intro h
    have hvalue := congrArg BitVec.toNat h
    rw [toNat_unpackExponent] at hvalue
    exact Nat.ne_of_lt hb hvalue
  have hnan : @isNaNBits Format.binary64 b.toBitVec = false := decide_eq_false fun h => hexp h.1
  change UInt64.ofBitVec (UnpackedFloat.pack Format.binary64
    (UnpackedFloat.unpack Format.binary64 b.toBitVec)) = b
  rw [pack_unpack, hnan]
  rfl

theorem unpack_negative {e : BitVec 11} {m : BitVec 52} :
    (UnpackedFloat.unpack Format.binary64 (packComponents Format.binary64 .positive e m)).neg =
      UnpackedFloat.unpack Format.binary64 (packComponents Format.binary64 .negative e m) := by
  simp only [UnpackedFloat.unpack, unpackMantissa_packComponents, unpackExponent_packComponents,
    unpackSign_packComponents, Sign.ofBitVec_toBitVec]
  split
  · split <;> rfl
  · split
    · split <;> rfl
    · rfl

theorem toNat_packComponents (s : Sign) (e : BitVec 11) (m : BitVec 52) :
    (packComponents Format.binary64 s e m).toNat =
      s.toBitVec.toNat * 2 ^ 63 + e.toNat * 2 ^ 52 + m.toNat := by
  simp only [packComponents, BitVec.toNat_append]
  rw [← Nat.shiftLeft_add_eq_or_of_lt e.isLt, ← Nat.shiftLeft_add_eq_or_of_lt m.isLt,
    Nat.shiftLeft_eq, Nat.shiftLeft_eq]
  omega

/-- A number and its negation differ in the sign bit. -/
theorem toBits_neg {b : UInt64} (hb : b.toNat / 2 ^ 52 % 2 ^ 11 < 2 ^ 11 - 1)
    (hs : b.toNat < 2 ^ 63) : (-Float.ofBits b).toBits.toNat = b.toNat + 2 ^ 63 := by
  have hsign : @unpackSign Format.binary64 b.toBitVec = 0#1 := by
    refine BitVec.eq_of_toNat_eq ?_
    rw [unpackSign_def, BitVec.extractLsb'_toNat, Nat.shiftRight_eq_div_pow]
    change b.toNat / 2 ^ 63 % 2 = 0
    rw [Nat.div_eq_of_lt hs]
  have hparts := @packComponents_unpackSign_unpackExponent_unpackMantissa Format.binary64 b.toBitVec
  have hexp := toNat_unpackExponent b
  rw [hsign] at hparts
  generalize @unpackExponent Format.binary64 b.toBitVec = e at hparts hexp
  generalize @unpackMantissa Format.binary64 b.toBitVec = m at hparts
  have hnot : e ≠ -1#_ := by
    rintro rfl
    exact Nat.ne_of_lt hb hexp.symm
  have hnan : @isNaNBits Format.binary64 (packComponents Format.binary64 .negative e m) = false :=
    decide_eq_false fun h => hnot (by simpa using h.1)
  have hneg : (-Float.ofBits b).toBits =
      UInt64.ofBitVec (packComponents Format.binary64 .negative e m) := by
    change UInt64.ofBitVec (UnpackedFloat.pack Format.binary64
      (UnpackedFloat.unpack Format.binary64 (Float.ofBits b).toBits.toBitVec).neg) = _
    rw [toBits_ofBits hb, ← hparts]
    change UInt64.ofBitVec (UnpackedFloat.pack Format.binary64
      (UnpackedFloat.unpack Format.binary64 (packComponents Format.binary64 .positive e m)).neg) = _
    rw [unpack_negative, pack_unpack, hnan]
    rfl
  have hvalue : b.toNat = (packComponents Format.binary64 .positive e m).toNat :=
    congrArg BitVec.toNat hparts.symm
  rw [hneg, hvalue]
  change (packComponents Format.binary64 .negative e m).toNat = _
  rw [toNat_packComponents, toNat_packComponents]
  change 1 * 2 ^ 63 + _ + _ = 0 * 2 ^ 63 + _ + _ + _
  omega

end Bits

/-- The exponent field of a pattern of bits. -/
theorem and_exponent (b : Nat) : b &&& 0x7FF0000000000000 = b / 2 ^ 52 % 2 ^ 11 * 2 ^ 52 := by
  have hdiv : (b &&& 0x7FF0000000000000) / 2 ^ 52 = b / 2 ^ 52 % 2 ^ 11 := by
    rw [Nat.and_div_two_pow, ← Nat.and_two_pow_sub_one_eq_mod]
  have hmod : (b &&& 0x7FF0000000000000) % 2 ^ 52 = 0 := by
    rw [Nat.and_mod_two_pow]
    exact Nat.and_zero _
  rw [← hdiv]
  omega

theorem isFinite_iff (x : Float) :
    isFinite x ↔ x.toBits.toNat / 2 ^ 52 % 2 ^ 11 ≠ 2 ^ 11 - 1 := by
  rw [isFinite, bne_iff_ne, ne_eq, ← UInt64.toNat_inj, UInt64.toNat_and]
  change ¬ x.toBits.toNat &&& 0x7FF0000000000000 = 0x7FF0000000000000 ↔ _
  rw [and_exponent]
  omega

theorem isNegative_iff (x : Float) : isNegative x ↔ 2 ^ 63 ≤ x.toBits.toNat := by
  rw [isNegative, bne_iff_ne, ne_eq, ← UInt64.toNat_inj, UInt64.toNat_and]
  change ¬ x.toBits.toNat &&& 2 ^ 63 = 0 ↔ _
  have hlt := x.toBits.toNat_lt
  rw [Nat.and_two_pow, Nat.testBit_eq_decide_div_mod_eq]
  have hbit : x.toBits.toNat / 2 ^ 63 % 2 = 1 ↔ 2 ^ 63 ≤ x.toBits.toNat := by omega
  simpa using hbit

/-! ## Digits -/

theorem digitCount_le_iff {k : Nat} : digitCount n ≤ k ↔ n < 10 ^ k := by
  unfold digitCount
  split
  · next h => simp [h]
  · next h =>
    rcases Nat.eq_zero_or_pos k with rfl | hk
    · simp [h, Nat.toDigits_ne_nil]
    · exact Nat.length_toDigits_le_iff (by decide) hk

theorem lt_digitCount_iff {k : Nat} : k < digitCount n ↔ 10 ^ k ≤ n := by
  rw [← Nat.not_le, digitCount_le_iff, Nat.not_lt]

theorem digitCount_bounds (hpos : n ≠ 0) :
    0 < digitCount n ∧ 10 ^ (digitCount n - 1) ≤ n ∧ n < 10 ^ digitCount n := by
  have hone : 0 < digitCount n := lt_digitCount_iff.mpr (Nat.one_le_iff_ne_zero.mpr hpos)
  exact ⟨hone, lt_digitCount_iff.mp (Nat.sub_lt hone Nat.one_pos),
    digitCount_le_iff.mp (Nat.le_refl _)⟩

theorem digitCount_mul_pow (hpos : n ≠ 0) (k : Nat) :
    digitCount (n * 10 ^ k) = digitCount n + k := by
  obtain ⟨hone, hlow, hhigh⟩ := digitCount_bounds hpos
  have hle : digitCount (n * 10 ^ k) ≤ digitCount n + k := by
    rw [digitCount_le_iff, Nat.pow_add]
    exact Nat.mul_lt_mul_of_pos_right hhigh (Nat.pos_of_neZero _)
  have hlt : digitCount n - 1 + k < digitCount (n * 10 ^ k) := by
    rw [lt_digitCount_iff, Nat.pow_add]
    exact Nat.mul_le_mul_right _ hlow
  omega

theorem digitChars_mul_pow (hpos : n ≠ 0) (k : Nat) :
    digitChars (n * 10 ^ k) = digitChars n ++ List.replicate k '0' := by
  induction k with
  | zero => simp
  | succ k ih =>
    have hne : 0 < n * 10 ^ k := Nat.mul_pos (Nat.pos_of_ne_zero hpos) (Nat.pos_of_neZero _)
    have hstep := Nat.toDigits_append_toDigits (b := 10) (d := 0) (by decide) hne (by decide)
    have hnext : n * 10 ^ (k + 1) = 10 * (n * 10 ^ k) + 0 := by rw [Nat.pow_succ]; ring
    rw [hnext, digitChars, ← hstep, Nat.toDigits_zero, ← digitChars, ih, List.append_assoc,
      List.replicate_succ']

/-! ## The shortest decimal -/

theorem leadExponent_mul (hpos : n ≠ 0) (hd : d ≠ 0) :
    leadExponent (n * d) d = (digitCount n - 1 : Nat) := by
  have hdpos := Nat.pos_of_ne_zero hd
  obtain ⟨hone, hlow, hhigh⟩ := digitCount_bounds hpos
  obtain ⟨hdone, hdlow, hdhigh⟩ := digitCount_bounds hd
  have hle : digitCount (n * d) ≤ digitCount n + digitCount d := by
    rw [digitCount_le_iff, Nat.pow_add]
    exact Nat.mul_lt_mul'' hhigh hdhigh
  have hlt : digitCount n - 1 + (digitCount d - 1) < digitCount (n * d) := by
    rw [lt_digitCount_iff, Nat.pow_add]
    exact Nat.mul_le_mul hlow hdlow
  obtain ⟨g, hg, hcases⟩ : ∃ g : Nat, (digitCount (n * d) : Int) - (digitCount d : Int) = g ∧
      (g = digitCount n - 1 ∨ g = digitCount n) :=
    ⟨digitCount (n * d) - digitCount d, by omega, by omega⟩
  unfold leadExponent
  have hnot : ¬ (g : Int) < 0 := by omega
  simp only [hg, if_neg hnot, Int.natAbs_natCast]
  have hiff : n * d < d * Nat.pow 10 g ↔ n < 10 ^ g := by
    rw [Nat.mul_comm d]
    exact Nat.mul_lt_mul_right hdpos
  simp only [hiff]
  rcases hcases with rfl | rfl
  · rw [if_neg (Nat.not_lt.mpr hlow)]
  · rw [if_pos hhigh]
    omega

/-- The reals that round to a whole number are nearer to it than to any other. -/
structure Interval.Around (i : Interval) (n : Nat) : Prop where
  value : i.value = n * i.den
  wide : 2 < i.den
  low : i.low < i.value ∧ i.value ≤ i.low + 2
  high : i.high = i.value + 2

namespace Interval.Around

variable {i : Interval}

theorem holds_iff (hi : i.Around n) (g x : Nat) : i.holds ⟨g, x⟩ ↔ g * 10 ^ x = n := by
  obtain ⟨hvalue, hwide, hlow, hhigh⟩ := hi
  have hnum : (if (x : Int) < 0 then g * i.den else g * Nat.pow 10 (x : Int).natAbs * i.den) =
      g * 10 ^ x * i.den := by simp
  have hscale : (if (x : Int) < 0 then Nat.pow 10 (x : Int).natAbs else 1) = 1 := by simp
  have hsame : g * 10 ^ x = n ↔ i.low ≤ g * 10 ^ x * i.den ∧ g * 10 ^ x * i.den ≤ i.high := by
    generalize g * 10 ^ x = y
    constructor
    · rintro rfl
      omega
    · rintro ⟨h1, h2⟩
      rcases Nat.lt_trichotomy y n with h | h | h
      · have := Nat.mul_le_mul_right i.den h
        rw [Nat.succ_mul] at this
        omega
      · exact h
      · have := Nat.mul_le_mul_right i.den h
        rw [Nat.succ_mul] at this
        omega
  simp only [holds, hnum, hscale, Nat.mul_one]
  have hends : ∀ y, y = n → i.low < y * i.den ∧ y * i.den < i.high := by
    rintro y rfl
    omega
  split
  · simp [hsame]
  · simp only [Bool.and_eq_true, decide_eq_true_eq]
    exact ⟨fun h => hsame.mpr ⟨h.1.le, h.2.le⟩, fun h => hends _ h⟩

/-- On a grid of whole numbers the number itself is found, if it is there. -/
theorem onGrid_eq (hi : i.Around n) (hpos : n ≠ 0) (x : Nat) :
    i.onGrid x = if 10 ^ x ∣ n then some ⟨n / 10 ^ x, x⟩ else none := by
  have hden : 0 < i.den := Nat.lt_trans (by decide) hi.wide
  have hfloor : i.floor x = ⟨n / 10 ^ x, x⟩ := by
    have hnot : ¬ (x : Int) < 0 := by omega
    rw [floor, if_neg hnot, hi.value, Nat.mul_comm n, Int.natAbs_natCast,
      Nat.mul_div_mul_left _ _ hden]
    rfl
  have hhigh : i.holds ⟨n / 10 ^ x + 1, x⟩ = false := by
    rw [Bool.eq_false_iff, ne_eq, hi.holds_iff]
    have := Nat.lt_div_mul_add (a := n) (b := 10 ^ x) (Nat.pos_of_neZero _)
    rw [Nat.succ_mul]
    omega
  rw [onGrid]
  simp only [hfloor, hhigh]
  by_cases hdvd : 10 ^ x ∣ n
  · have hlow : i.holds ⟨n / 10 ^ x, x⟩ := (hi.holds_iff _ _).mpr (Nat.div_mul_cancel hdvd)
    have hne : (n / 10 ^ x != 0) = true := bne_iff_ne.mpr fun h =>
      hpos (by rw [← Nat.div_mul_cancel hdvd, h, Nat.zero_mul])
    simp only [hne, hlow, hdvd, if_true, Bool.and_self]
  · have hlow : i.holds ⟨n / 10 ^ x, x⟩ = false := by
      rw [Bool.eq_false_iff, ne_eq, hi.holds_iff]
      exact fun h => hdvd ⟨_, (Nat.mul_comm _ _ ▸ h).symm⟩
    simp [hdvd, hlow]

end Interval.Around

theorem around_interval {m k : Nat} (hm : m = n * 2 ^ k) (hpos : n ≠ 0) :
    (interval m (-(k : Int))).Around n := by
  have hmpos : 0 < m := by rw [hm]; exact Nat.mul_pos (Nat.pos_of_ne_zero hpos) (Nat.two_pow_pos _)
  have hunit : (if -(k : Int) < 0 then 1 else Nat.pow 2 (-(k : Int)).natAbs) = 1 := by
    split
    · rfl
    · have : k = 0 := by omega
      subst this
      rfl
  have hden : (if -(k : Int) < 0 then 4 * Nat.pow 2 (-(k : Int)).natAbs else 4) = 4 * 2 ^ k := by
    split
    · simp
    · have : k = 0 := by omega
      subst this
      rfl
  have hk := Nat.two_pow_pos k
  constructor
  · simp only [interval, hunit, hden, hm]
    ring
  · simp only [interval, hden]
    omega
  · simp only [interval, hunit]
    split <;> omega
  · simp only [interval, hunit]
    omega

/-- A decimal that is a whole number, and no zero. -/
def Scaled.Is (s : Scaled) (n : Nat) : Prop :=
  s.digits ≠ 0 ∧ 0 ≤ s.exponent ∧ s.digits * 10 ^ s.exponent.toNat = n

theorem is_stripZeros (fuel : Nat) {s : Scaled} (hs : s.Is n) : (stripZeros fuel s).Is n := by
  induction fuel generalizing s with
  | zero => exact hs
  | succ fuel ih =>
    rw [stripZeros]
    split
    · next h =>
      simp only [Bool.and_eq_true, bne_iff_ne, decide_eq_true_eq] at h
      obtain ⟨hdigits, hexp, hvalue⟩ := hs
      refine ih ⟨?_, ?_, ?_⟩
      · change s.digits / 10 ≠ 0
        omega
      · change 0 ≤ s.exponent + 1
        omega
      · change s.digits / 10 * 10 ^ (s.exponent + 1).toNat = n
        have hnext : (s.exponent + 1).toNat = s.exponent.toNat + 1 := by omega
        rw [← hvalue, hnext, Nat.pow_succ', ← Nat.mul_assoc,
          Nat.div_mul_cancel (Nat.dvd_of_mod_eq_zero h.2)]
    · exact hs

/-- Of the grids that are tried, from the leading digit down, one of whole numbers holds it. -/
theorem Interval.Around.exists_onGrid {i : Interval} (hi : i.Around n) (hn : n < 2 ^ 53)
    (hpos : n ≠ 0) : ∃ s : Scaled, s.Is n ∧ ((List.range 17).findSome? fun (k : Nat) =>
      i.onGrid (leadExponent i.value i.den - k)) = some s := by
  obtain ⟨hone, -, -⟩ := digitCount_bounds hpos
  have hcount : digitCount n ≤ 16 := digitCount_le_iff.mpr (Nat.lt_trans hn (by decide))
  have hlead : leadExponent i.value i.den = (digitCount n - 1 : Nat) := by
    rw [hi.value]
    exact leadExponent_mul hpos (Nat.ne_of_gt (Nat.lt_trans (by decide) hi.wide))
  have hgrid : ∀ k < digitCount n, i.onGrid (((digitCount n - 1 : Nat) : Int) - (k : Nat)) =
      if 10 ^ (digitCount n - 1 - k) ∣ n then
        some ⟨n / 10 ^ (digitCount n - 1 - k), (digitCount n - 1 - k : Nat)⟩ else none := by
    intro k hk
    have hexp : ((digitCount n - 1 : Nat) : Int) - (k : Nat) = (digitCount n - 1 - k : Nat) := by
      omega
    rw [hexp, hi.onGrid_eq hpos]
  have hsplit : List.range 17 = List.range (digitCount n) ++
      (List.range (17 - digitCount n)).map (digitCount n + ·) := by
    rw [← List.range_add, Nat.add_sub_cancel' (by omega)]
  have hfound : ((List.range (digitCount n)).findSome? fun (k : Nat) =>
      i.onGrid (((digitCount n - 1 : Nat) : Int) - k)).isSome := by
    rw [List.findSome?_isSome_iff]
    refine ⟨digitCount n - 1, List.mem_range.mpr (by omega), ?_⟩
    rw [hgrid _ (by omega)]
    simp
  obtain ⟨s, hs⟩ := Option.isSome_iff_exists.mp hfound
  refine ⟨s, ?_, by rw [hlead, hsplit, List.findSome?_append, hs]; rfl⟩
  obtain ⟨k, hk, hks⟩ := List.exists_of_findSome?_eq_some hs
  rw [hgrid k (List.mem_range.mp hk)] at hks
  split at hks
  · next hdvd =>
    cases hks
    refine ⟨fun h : n / 10 ^ (digitCount n - 1 - k) = 0 => hpos ?_, Int.natCast_nonneg _,
      Nat.div_mul_cancel hdvd⟩
    rw [← Nat.div_mul_cancel hdvd, h, Nat.zero_mul]
  · cases hks

/-- The shortest decimal of a whole number is the number. -/
theorem is_shortest {x : Float} (hn : n < 2 ^ 53) (hpos : n ≠ 0)
    (hx : decode x.toBits = (significand n, -(shift n : Int))) : (shortest x).Is n := by
  have hi := around_interval (k := shift n) (m := significand n) rfl hpos
  obtain ⟨s, hs, hfound⟩ := hi.exists_onGrid hn hpos
  have hshort : shortest x = stripZeros 20 s := by
    rw [shortest, hx]
    simp only [hfound, Option.getD_some]
  rw [hshort]
  exact is_stripZeros 20 hs

/-- The text of a whole number below `2 ^ 53` in a style that writes numbers of sixteen digits
positionally, and whole ones without a fraction. -/
theorem write_eq {style : Style} {s : Scaled} (hleast : style.least ≤ 0) (hmost : 15 ≤ style.most)
    (hwhole : style.wholeFraction = false) (hn : n < 2 ^ 53) (h : s.Is n) :
    style.write s = digitChars n := by
  obtain ⟨hs, he, hvalue⟩ := h
  have hcount : digitCount n ≤ 16 := digitCount_le_iff.mpr (Nat.lt_trans hn (by decide))
  have hdigits : digitCount n = (digitChars s.digits).length + s.exponent.toNat := by
    rw [← hvalue, digitCount_mul_pow hs, digitCount, if_neg hs, digitChars]
  have hlength : 0 < (digitChars s.digits).length := Nat.length_toDigits_pos
  have hlead : style.least ≤ s.exponent + (digitChars s.digits).length - 1 ∧
      s.exponent + (digitChars s.digits).length - 1 ≤ style.most := by omega
  rw [Style.write]
  simp only [hlead, decide_true, Bool.and_self, if_true, hwhole, ge_iff_le, he]
  rw [← hvalue, digitChars_mul_pow hs]
  simp

/-! ## Whole numbers as doubles -/

/-- A double that is a whole number other than zero, sign aside. -/
def Whole (n : Nat) (x : Float) : Prop := x.toBits.toNat % 2 ^ 63 = wholeBits n

theorem toNat_toUInt64 (hn : n < 2 ^ 64) : n.toUInt64.toNat = n := by
  rw [Nat.toUInt64, UInt64.toNat_ofNat', Nat.mod_eq_of_lt hn]

theorem wholeBits_div (hn : n < 2 ^ 53) (hpos : n ≠ 0) :
    (wholeBits n).toUInt64.toNat = wholeBits n ∧ wholeBits n < 2 ^ 63 ∧
      wholeBits n / 2 ^ 52 % 2 ^ 11 = 1075 - shift n := by
  obtain ⟨hexp, hfraction⟩ := wholeBits_lt hn hpos
  have hlt : wholeBits n < 2 ^ 63 := by omega
  exact ⟨toNat_toUInt64 (Nat.lt_trans hlt (by decide)), hlt, by omega⟩

theorem field_wholeBits (hn : n < 2 ^ 53) (hpos : n ≠ 0) :
    (wholeBits n).toUInt64.toNat / 2 ^ 52 % 2 ^ 11 < 2 ^ 11 - 1 := by
  obtain ⟨hbits, -, hexp⟩ := wholeBits_div hn hpos
  rw [hbits, hexp]
  omega

theorem whole_ofBits (hn : n < 2 ^ 53) (hpos : n ≠ 0) :
    Whole n (Float.ofBits (wholeBits n).toUInt64) ∧
      isNegative (Float.ofBits (wholeBits n).toUInt64) = false := by
  obtain ⟨hbits, hlt, -⟩ := wholeBits_div hn hpos
  refine ⟨?_, ?_⟩
  · rw [Whole, toBits_ofBits (field_wholeBits hn hpos), hbits, Nat.mod_eq_of_lt hlt]
  · rw [Bool.eq_false_iff, ne_eq, isNegative_iff, toBits_ofBits (field_wholeBits hn hpos), hbits]
    omega

theorem whole_neg (hn : n < 2 ^ 53) (hpos : n ≠ 0) :
    Whole n (-Float.ofBits (wholeBits n).toUInt64) ∧
      isNegative (-Float.ofBits (wholeBits n).toUInt64) := by
  obtain ⟨hbits, hlt, -⟩ := wholeBits_div hn hpos
  have hneg := toBits_neg (field_wholeBits hn hpos) (by rw [hbits]; exact hlt)
  rw [hbits] at hneg
  refine ⟨?_, ?_⟩
  · rw [Whole, hneg, Nat.add_mod_right, Nat.mod_eq_of_lt hlt]
  · rw [isNegative_iff, hneg]
    omega

theorem decode_of_bits {b : UInt64} (hb : b.toNat % 2 ^ 63 = wholeBits n) (hn : n < 2 ^ 53)
    (hpos : n ≠ 0) : decode b = (significand n, -(shift n : Int)) := by
  obtain ⟨hlow, hhigh⟩ := significand_bounds hn hpos
  obtain ⟨hexp, hfraction⟩ := wholeBits_lt hn hpos
  have hshift : shift n ≤ 52 := Nat.sub_le _ _
  have hbiased : b.toNat / Nat.pow 2 52 % Nat.pow 2 11 = 1075 - shift n := by
    change b.toNat / 2 ^ 52 % 2 ^ 11 = _
    rw [← hexp, ← hb]
    omega
  have hrest : b.toNat % Nat.pow 2 52 = significand n - 2 ^ 52 := by
    change b.toNat % 2 ^ 52 = _
    rw [← hfraction, ← hb]
    omega
  rw [decode]
  simp only [hbiased, hrest]
  rw [if_neg (by omega)]
  refine Prod.ext ?_ ?_
  · exact Nat.sub_add_cancel hlow
  · change ((1075 - shift n : Nat) : Int) - 1075 = _
    omega

namespace Whole

variable {x : Float}

theorem decode_eq (hx : Whole n x) (hn : n < 2 ^ 53) (hpos : n ≠ 0) :
    decode x.toBits = (significand n, -(shift n : Int)) := decode_of_bits hx hn hpos

theorem isFinite (hx : Whole n x) (hn : n < 2 ^ 53) (hpos : n ≠ 0) : Decimal.isFinite x := by
  obtain ⟨-, -, hexp⟩ := wholeBits_div hn hpos
  rw [isFinite_iff]
  rw [← hx] at hexp
  omega

theorem ne_zero (hx : Whole n x) (hn : n < 2 ^ 53) (hpos : n ≠ 0) : (x == 0) = false := by
  obtain ⟨-, -, hexp⟩ := wholeBits_div hn hpos
  rw [Bool.eq_false_iff, ne_eq, Float.beq_iff_ne_nan_and_eq]
  rw [← hx] at hexp
  have hshift : shift n ≤ 52 := Nat.sub_le _ _
  rintro ⟨-, -, rfl | ⟨rfl, -⟩ | ⟨rfl, -⟩⟩
  · change 0 % 2 ^ 63 / 2 ^ 52 % 2 ^ 11 = _ at hexp
    omega
  · change 0 % 2 ^ 63 / 2 ^ 52 % 2 ^ 11 = _ at hexp
    omega
  · change 2 ^ 63 % 2 ^ 63 / 2 ^ 52 % 2 ^ 11 = _ at hexp
    omega

/-- A whole number is written with its digits. -/
theorem writeFloat_eq {style : Style} (hleast : style.least ≤ 0) (hmost : 15 ≤ style.most)
    (hwhole : style.wholeFraction = false) (hx : Whole n x) (hn : n < 2 ^ 53) (hpos : n ≠ 0) :
    style.writeFloat x =
      if Decimal.isNegative x then '-' :: digitChars n else digitChars n := by
  have hshort := is_shortest hn hpos (hx.decode_eq hn hpos)
  rw [Style.writeFloat]
  simp only [hx.ne_zero hn hpos, Bool.false_eq_true, if_false,
    write_eq hleast hmost hwhole hn hshort]

end Whole

section Natural

open Float.Model Float.Model.UnpackedFloat

theorem repeat_shiftRightOne (a k : Nat) :
    Nat.repeat ExtendedMantissa.shiftRightOne k ⟨a * 2 ^ k, false, false⟩ = ⟨a, false, false⟩ := by
  induction k generalizing a with
  | zero => simp [Nat.repeat]
  | succ k ih =>
    have h := ih (a * 2)
    rw [Nat.mul_assoc, ← Nat.pow_succ'] at h
    rw [Nat.repeat, h]
    simp [ExtendedMantissa.shiftRightOne]

theorem shiftToExponent_exact {m k : Nat} {e : Int} :
    shiftToExponent (m * 2 ^ k) e .exact (e + k) = (⟨m, false, false⟩, e + k) := by
  have hk : (e + k - e).toNat = k := by omega
  simp only [shiftToExponent, hk, ExtendedMantissa.ofMantissaAndAccuracy]
  exact congrArg (·, e + (k : Int)) (repeat_shiftRightOne m k)

theorem log2_mul_two_pow {m : Nat} (hpos : m ≠ 0) (k : Nat) : (m * 2 ^ k).log2 = m.log2 + k := by
  rw [Nat.log2_eq_iff (Nat.mul_ne_zero hpos (Nat.two_pow_pos k).ne')]
  have hlow := Nat.log2_self_le hpos
  have hhigh := Nat.lt_log2_self (n := m)
  rw [Nat.pow_add, Nat.add_right_comm, Nat.pow_add]
  exact ⟨Nat.mul_le_mul_right _ hlow, Nat.mul_lt_mul_of_pos_right hhigh (Nat.two_pow_pos k)⟩

/-- The last bit of a number that is no denormal one. -/
theorem targetExponent_eq {m : Nat} {e : Int} (h : -1074 ≤ e + m.log2 - 52) :
    Format.binary64.targetExponent (totalExponent m e) = e + m.log2 - 52 := by
  have hmin : Format.binary64.minExponent = -1074 := by decide
  have hbits : (Format.binary64.mantissaBits : Int) = 53 := by decide
  simp only [Format.targetExponent, totalExponent, hmin, hbits]
  omega

/-- Rounding leaves a significand of full width as it is. -/
theorem round_exact {m k : Nat} {e : Int} (hm : 2 ^ 52 ≤ m ∧ m < 2 ^ 53) (he : -1074 ≤ e + k) :
    roundWithAccuracy Format.binary64 .positive (m * 2 ^ k) e .exact =
      .finite .positive m (e + k) (Nat.lt_of_lt_of_le (by decide) hm.1) := by
  have hpos : m ≠ 0 := by omega
  have hlog : m.log2 = 52 := (Nat.log2_eq_iff hpos).mpr hm
  have hlogk : (m * 2 ^ k).log2 = 52 + k := by rw [log2_mul_two_pow hpos, hlog]
  have htarget : Format.binary64.targetExponent (totalExponent (m * 2 ^ k) e) = e + k := by
    rw [targetExponent_eq] <;> omega
  have htarget' : Format.binary64.targetExponent (totalExponent m (e + k)) = e + k := by
    rw [targetExponent_eq] <;> omega
  have hagain : shiftToExponent m (e + k) .exact (e + k) = (⟨m, false, false⟩, e + k) := by
    simpa using shiftToExponent_exact (m := m) (k := 0) (e := e + k)
  rw [roundWithAccuracy]
  simp only [shiftToTargetExponent, htarget, shiftToExponent_exact,
    ExtendedMantissa.roundedMantissa, ExtendedMantissa.accuracy, Accuracy.roundToNearestEven,
    htarget', hagain, hpos, dite_false]

theorem toNat_implicit (m : BitVec 52) : (1#1 ++ m).toNat = 2 ^ 52 + m.toNat := by
  rw [BitVec.toNat_append, ← Nat.shiftLeft_add_eq_or_of_lt m.isLt, Nat.shiftLeft_eq,
    BitVec.toNat_ofNat]
  omega

theorem unpack_normal {s : Sign} {e : BitVec 11} {m : BitVec 52} (hones : e.toNat < 2 ^ 11 - 1)
    (hzero : e.toNat ≠ 0) :
    UnpackedFloat.unpack Format.binary64 (packComponents Format.binary64 s e m) =
      .finite s (2 ^ 52 + m.toNat) ((e.toNat : Int) - 1075) (by omega) := by
  have hne : e ≠ -1#_ := by
    rintro rfl
    exact Nat.lt_irrefl _ hones
  have hnonzero : e ≠ 0#_ := by
    rintro rfl
    exact hzero rfl
  have hbias : (Format.binary64.exponentBias : Int) +
      Format.binary64.mantissaBitsWithoutImplicit = 1075 := by decide
  simp only [UnpackedFloat.unpack, unpackMantissa_packComponents, unpackExponent_packComponents,
    unpackSign_packComponents, Sign.ofBitVec_toBitVec]
  rw [if_neg hne, if_neg hnonzero]
  simp only [hbias]
  congr 1
  exact toNat_implicit m

/-- The double that a whole number other than zero is, taken apart. -/
theorem unpack_wholeBits (hn : n < 2 ^ 53) (hpos : n ≠ 0) :
    UnpackedFloat.unpack Format.binary64 (wholeBits n).toUInt64.toBitVec =
      .finite .positive (significand n) (-(shift n : Int))
        (Nat.lt_of_lt_of_le (by decide) (significand_bounds hn hpos).1) := by
  obtain ⟨hlow, hhigh⟩ := significand_bounds hn hpos
  obtain ⟨hbits, hlt, -⟩ := wholeBits_div hn hpos
  have hshift : shift n ≤ 52 := Nat.sub_le _ _
  obtain ⟨e, he⟩ : ∃ e : BitVec 11, e.toNat = 1075 - shift n :=
    ⟨BitVec.ofNat 11 (1075 - shift n), Nat.mod_eq_of_lt (by omega)⟩
  obtain ⟨m, hm⟩ : ∃ m : BitVec 52, m.toNat = significand n - 2 ^ 52 :=
    ⟨BitVec.ofNatLT _ (show significand n - 2 ^ 52 < 2 ^ 52 by omega), rfl⟩
  have hparts : (wholeBits n).toUInt64.toBitVec = packComponents Format.binary64 .positive e m := by
    refine BitVec.eq_of_toNat_eq ?_
    rw [toNat_packComponents]
    change (wholeBits n).toUInt64.toNat = 0 * 2 ^ 63 + _ + _
    rw [hbits, he, hm, Nat.zero_mul, Nat.zero_add]
    unfold wholeBits
    with_reducible rfl
  have hnormal := @unpack_normal .positive e m (by omega) (by omega)
  have hexp : ((1075 - shift n : Nat) : Int) - 1075 = -(shift n : Int) := by omega
  simp only [he, hm, hexp, Nat.add_sub_cancel' hlow] at hnormal
  rw [hparts, hnormal]

/-- A natural that is made a double needs no rounding. -/
theorem ofUInt64_eq (hn : n < 2 ^ 53) (hpos : n ≠ 0) :
    UnpackedFloat.ofUInt64 Format.binary64 n.toUInt64 =
      UnpackedFloat.unpack Format.binary64 (wholeBits n).toUInt64.toBitVec := by
  have hlog := log2_le hn hpos
  have hcompare : compare (n : Int) 0 = .gt := by
    rw [compare_gt_iff_gt]
    omega
  have htarget : Format.binary64.targetExponent (totalExponent n 0) = -(shift n : Int) := by
    rw [targetExponent_eq, shift] <;> omega
  have hleft : (0 - -(shift n : Int)).toNat = shift n := by omega
  have hdown : (0 : Int) - (shift n : Int) = -(shift n : Int) := by omega
  have hexact := round_exact (m := significand n) (k := 0) (e := -(shift n : Int))
    (significand_bounds hn hpos) (by rw [shift]; omega)
  rw [unpack_wholeBits hn hpos, UnpackedFloat.ofUInt64,
    toNat_toUInt64 (Nat.lt_trans hn (by decide)), UnpackedFloat.ofNat, UnpackedFloat.ofInt,
    UnpackedFloat.normalize]
  simp only [hcompare, Int.toNat_natCast, UnpackedFloat.round, htarget, decreaseExponent, hleft,
    hdown, Nat.shiftLeft_eq]
  simpa [significand] using hexact

/-- Nor does one that is multiplied by one. -/
theorem mul_one_eq (hn : n < 2 ^ 53) (hpos : n ≠ 0) :
    UnpackedFloat.mul Format.binary64
        (UnpackedFloat.unpack Format.binary64 (wholeBits n).toUInt64.toBitVec)
        (UnpackedFloat.unpack Format.binary64 (wholeBits 1).toUInt64.toBitVec) =
      UnpackedFloat.unpack Format.binary64 (wholeBits n).toUInt64.toBitVec := by
  have hshift : shift n ≤ 52 := Nat.sub_le _ _
  have hshift₁ : shift 1 = 52 := by decide
  have hsignificand₁ : significand 1 = 2 ^ 52 := by rw [significand, hshift₁, Nat.one_mul]
  have hexact := round_exact (k := 52) (e := -(shift n : Int) + -(shift 1 : Int))
    (significand_bounds hn hpos) (by omega)
  have hexp : -(shift n : Int) + -(shift 1 : Int) + (52 : Nat) = -(shift n : Int) := by omega
  simp only [hexp, ← hsignificand₁] at hexact
  rw [unpack_wholeBits hn hpos, unpack_wholeBits (by decide) (by decide)]
  exact hexact

/-- A natural below `2 ^ 53` is a double. -/
theorem toFloat_nat (hn : n < 2 ^ 53) : n.toFloat = nearest n 1 := by
  by_cases hpos : n = 0
  · subst hpos
    rfl
  · have hnearest : nearest n 1 = Float.ofBits (wholeBits n).toUInt64 := by
      rw [← nearest_mul hn hpos Nat.one_ne_zero, Nat.mul_one]
    -- Small naturals are converted at once, and multiplied by the power of ten that belongs to
    -- them.
    have htimes : n.toFloat = n.toUInt64.toFloat * Float.ofBits (wholeBits 1).toUInt64 := by
      change Float.ofScientific n false 0 = _
      rw [Float.ofScientific, dif_pos ⟨hn, by decide⟩]
      rfl
    have hleft : n.toUInt64.toFloat = Float.ofBits (wholeBits n).toUInt64 := by
      change Float.ofModel (Float.Model.pack (UnpackedFloat.ofUInt64 Format.binary64 n.toUInt64)) =
        _
      rw [ofUInt64_eq hn hpos]
      rfl
    rw [hnearest, htimes, hleft]
    change Float.ofModel (Float.Model.pack (UnpackedFloat.mul Format.binary64
      (UnpackedFloat.unpack Format.binary64 (Float.ofBits (wholeBits n).toUInt64).toBits.toBitVec)
      (UnpackedFloat.unpack Format.binary64
        (Float.ofBits (wholeBits 1).toUInt64).toBits.toBitVec))) = _
    rw [toBits_ofBits (field_wholeBits hn hpos),
      toBits_ofBits (field_wholeBits (by decide) (by decide)), mul_one_eq hn hpos]
    rfl

end Natural

/-! ## Decimals that are whole numbers -/

theorem toFloat_zero (e : Int) : toFloat 0 e = 0 := by simp [toFloat]

/-- A whole number times a power of ten is read as the product. -/
theorem toFloat_mul_pow (k : Nat) (hn : n * 10 ^ k < 2 ^ 53) :
    toFloat n k = nearest (n * 10 ^ k) 1 := by
  by_cases hpos : n = 0
  · subst hpos
    rw [toFloat_zero, Nat.zero_mul]
    rfl
  have hcount : digitCount n + k ≤ 16 := by
    rw [← digitCount_mul_pow hpos]
    exact digitCount_le_iff.mpr (Nat.lt_trans hn (by decide))
  have hlow : ¬ (digitCount n : Int) + k < -400 := by omega
  have hhigh : ¬ (digitCount n : Int) + k > 400 := by omega
  have hexp : ¬ (k : Int) < 0 := by omega
  simp only [toFloat, hpos, hlow, decide_false, Bool.or_self, Bool.false_eq_true, hhigh, hexp,
    if_false, Int.natAbs_natCast]
  rfl

/-- Zeros behind the point are left out. -/
theorem toFloat_div_pow (k : Nat) (hn : n < 2 ^ 53) :
    toFloat (n * 10 ^ k) (-(k : Int)) = nearest n 1 := by
  by_cases hpos : n = 0
  · subst hpos
    rw [Nat.zero_mul, toFloat_zero]
    rfl
  have hpow : (10 : Nat) ^ k ≠ 0 := Nat.pos_iff_ne_zero.mp (Nat.pos_of_neZero _)
  have hcount : digitCount n ≤ 16 := digitCount_le_iff.mpr (Nat.lt_trans hn (by decide))
  have hlead : (digitCount (n * 10 ^ k) : Int) + -(k : Int) = digitCount n := by
    rw [digitCount_mul_pow hpos]
    omega
  have hlow : ¬ (digitCount n : Int) < -400 := by omega
  have hhigh : ¬ (digitCount n : Int) > 400 := by omega
  have hsame := (nearest_mul hn hpos Nat.one_ne_zero).symm
  simp only [toFloat, hlead, Nat.mul_ne_zero hpos hpow, hlow, hhigh, decide_false, Bool.or_self,
    Bool.false_eq_true, if_false, Int.natAbs_neg, Int.natAbs_natCast]
  split
  · rw [Nat.mul_one] at hsame
    exact (nearest_mul hn hpos hpow).trans hsame
  · obtain rfl : k = 0 := by omega
    rw [Nat.pow_zero, Nat.mul_one]
    exact congrArg (nearest · 1) (Nat.mul_one n)

/-- A decimal that is a whole number is read as this number. -/
theorem toFloat_eq {digits : Nat} {e : Int} (hn : n < 2 ^ 53) (h : (digits : ℚ) * 10 ^ e = n) :
    toFloat digits e = nearest n 1 := by
  rcases Int.eq_nat_or_neg e with ⟨k, rfl | rfl⟩
  · obtain rfl : digits * 10 ^ k = n := by exact_mod_cast h
    exact toFloat_mul_pow k hn
  · rw [zpow_neg, zpow_natCast, ← div_eq_mul_inv, div_eq_iff (by positivity)] at h
    obtain rfl : digits = n * 10 ^ k := by exact_mod_cast h
    exact toFloat_div_pow k hn

end LoadHook.Decimal
