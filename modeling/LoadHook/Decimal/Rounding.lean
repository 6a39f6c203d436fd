/-!
# Rounding to binary floating point

The double nearest to a positive fraction, a tie going to the even significand,
in exact arithmetic on naturals, and from it the double that a decimal names.
-/
namespace LoadHook.Decimal

/-- The quotient rounded to the nearest natural, a tie going to the even one. -/
def roundDiv (num den : Nat) : Nat :=
  let q := num / den
  let twice := 2 * (num % den)
  if twice < den then q
  else if den < twice then q + 1
  else if q % 2 = 0 then q else q + 1

/-- The bits of the double with significand `m < 2^54` and exponent `e ≥ -1074`, which
are those of infinity when the value is out of range. -/
def pack (m : Nat) (e : Int) : UInt64 :=
  let (m, e) := if m = Nat.pow 2 53 then (Nat.pow 2 52, e + 1) else (m, e)
  if m < Nat.pow 2 52 then m.toUInt64
  else if e > 971 then 0x7FF0000000000000
  else (((e + 1075).toNat * Nat.pow 2 52) + (m - Nat.pow 2 52)).toUInt64

/-- The exponent of the last bit of a double near `num / den`. -/
def lastBit (num den : Nat) : Int :=
  let guess : Int := (Nat.log2 num : Int) - (Nat.log2 den : Int) - 52
  let below := if guess < 0 then num * Nat.pow 2 guess.natAbs < den * Nat.pow 2 52
    else num < den * Nat.pow 2 guess.natAbs * Nat.pow 2 52
  max (if below then guess - 1 else guess) (-1074)

/-- The double nearest to `num / den`. -/
def nearest (num den : Nat) : Float :=
  if num = 0 then 0
  else
    let e := lastBit num den
    let m := if e < 0 then roundDiv (num * Nat.pow 2 e.natAbs) den
      else roundDiv num (den * Nat.pow 2 e.natAbs)
    Float.ofBits (pack m e)

/-- How many decimal digits a natural has; zero has none. -/
def digitCount (n : Nat) : Nat := if n = 0 then 0 else (Nat.toDigits 10 n).length

/-- The double nearest to `digits · 10^exponent`. Far out of range the power is not built. -/
def toFloat (digits : Nat) (exponent : Int) : Float :=
  let lead := (digitCount digits : Int) + exponent
  if digits = 0 || lead < -400 then 0
  else if lead > 400 then Float.ofBits 0x7FF0000000000000
  else if exponent < 0 then nearest digits (Nat.pow 10 exponent.natAbs)
  else nearest (digits * Nat.pow 10 exponent.natAbs) 1

/-- Whether a double is neither infinite nor NaN. -/
def isFinite (x : Float) : Bool := x.toBits &&& 0x7FF0000000000000 != 0x7FF0000000000000

/-- Whether the sign bit of a double is set. -/
def isNegative (x : Float) : Bool := x.toBits &&& 0x8000000000000000 != 0

end LoadHook.Decimal
