import LoadHook.Decimal.Rounding

/-!
# Decimal notation

How a double is written: the digits are the shortest that read back, and a
`Style` says for which magnitudes they are written out positionally and
whether a whole number keeps a fraction.

The shortest digits are those of the decimal with the fewest digits that rounds to a
given double, and of those the nearest to it. A finite positive double is `m · 2^q`; the
reals that round to it form an interval whose ends belong to it iff `m` is even. For one,
two, … up to seventeen digits the two neighbours on that decimal grid are tried in turn.
-/
namespace LoadHook.Decimal

/-! ## The shortest digits -/

/-- A positive decimal `digits · 10^exponent`. -/
structure Scaled where
  digits : Nat
  exponent : Int
  deriving DecidableEq, Repr

/-- Significand and exponent of a double, the sign bit left out. -/
def decode (bits : UInt64) : Nat × Int :=
  let fraction := bits.toNat % Nat.pow 2 52
  let biased : Nat := bits.toNat / Nat.pow 2 52 % Nat.pow 2 11
  if biased = 0 then (fraction, -1074) else (fraction + Nat.pow 2 52, (biased : Int) - 1075)

/-- The interval of reals that round to a double: ends `low / den` and `high / den`
around `value / den`, closed or open. -/
structure Interval where
  low : Nat
  value : Nat
  high : Nat
  den : Nat
  closed : Bool

/-- The interval of `m · 2^q`. Below a power of two the spacing is half as wide. -/
def interval (m : Nat) (q : Int) : Interval :=
  let down := if m = Nat.pow 2 52 && q > -1074 then 1 else 2
  let unit := if q < 0 then 1 else Nat.pow 2 q.natAbs
  { low := (4 * m - down) * unit
    value := 4 * m * unit
    high := (4 * m + 2) * unit
    den := if q < 0 then 4 * Nat.pow 2 q.natAbs else 4
    closed := m % 2 = 0 }

/-- Whether `digits · 10^exponent` lies in the interval. -/
def Interval.holds (i : Interval) (d : Scaled) : Bool :=
  let num := if d.exponent < 0 then d.digits * i.den
    else d.digits * Nat.pow 10 d.exponent.natAbs * i.den
  let scale := if d.exponent < 0 then Nat.pow 10 d.exponent.natAbs else 1
  if i.closed then i.low * scale ≤ num && num ≤ i.high * scale
  else i.low * scale < num && num < i.high * scale

/-- Twice the distance of the value above the grid point `digits · 10^exponent`, compared
with the width of the grid. -/
def Interval.half (i : Interval) (d : Scaled) : Ordering :=
  let num := if d.exponent < 0 then i.value * Nat.pow 10 d.exponent.natAbs else i.value
  let width := if d.exponent < 0 then i.den else i.den * Nat.pow 10 d.exponent.natAbs
  compare (2 * (num - d.digits * width)) width

/-- The grid point at or below the value. -/
def Interval.floor (i : Interval) (exponent : Int) : Scaled :=
  if exponent < 0 then ⟨i.value * Nat.pow 10 exponent.natAbs / i.den, exponent⟩
  else ⟨i.value / (i.den * Nat.pow 10 exponent.natAbs), exponent⟩

/-- The better of the two grid points around the value that lie in the interval. -/
def Interval.onGrid (i : Interval) (exponent : Int) : Option Scaled :=
  let low := i.floor exponent
  let high : Scaled := ⟨low.digits + 1, exponent⟩
  match low.digits != 0 && i.holds low, i.holds high with
  | false, false => none
  | true, false => some low
  | false, true => some high
  | true, true =>
    match i.half low with
    | .lt => some low
    | .gt => some high
    | .eq => some (if low.digits % 2 = 0 then low else high)

/-- The exponent of the leading digit of `num / den`. -/
def leadExponent (num den : Nat) : Int :=
  let guess : Int := (digitCount num : Int) - (digitCount den : Int)
  let below := if guess < 0 then num * Nat.pow 10 guess.natAbs < den
    else num < den * Nat.pow 10 guess.natAbs
  if below then guess - 1 else guess

/-- Drops the zeros at the end of the digits. -/
def stripZeros (fuel : Nat) (d : Scaled) : Scaled :=
  match fuel with
  | 0 => d
  | n + 1 => if d.digits != 0 && d.digits % 10 = 0 then stripZeros n ⟨d.digits / 10, d.exponent + 1⟩
    else d

/-- The shortest decimal of a finite double other than zero, sign aside. -/
def shortest (x : Float) : Scaled :=
  let (m, q) := decode x.toBits
  let i := interval m q
  let lead := leadExponent i.value i.den
  let found := (List.range 17).findSome? fun (n : Nat) => i.onGrid (lead - n)
  stripZeros 20 (found.getD (i.floor (lead - 16)))

/-! ## Styles -/

/-- Leading digits of an exponent between `least` and `most` are written positionally. -/
structure Style where
  least : Int
  most : Int
  wholeFraction : Bool

/-- The digits of a natural as characters. -/
def digitChars (n : Nat) : List Char := Nat.toDigits 10 n

/-- The exponent part: mark, sign and digits. -/
def exponentChars (e : Int) : List Char :=
  'e' :: (if e < 0 then '-' else '+') :: digitChars e.natAbs

/-- A positive decimal in a style. -/
def Style.write (style : Style) (d : Scaled) : List Char :=
  let ds := digitChars d.digits
  let lead := d.exponent + ds.length - 1
  if style.least ≤ lead && lead ≤ style.most then
    if d.exponent ≥ 0 then
      ds ++ List.replicate d.exponent.toNat '0' ++ (if style.wholeFraction then ['.', '0'] else [])
    else if lead ≥ 0 then
      ds.take (lead.toNat + 1) ++ '.' :: ds.drop (lead.toNat + 1)
    else
      '0' :: '.' :: List.replicate (-lead - 1).toNat '0' ++ ds
  else
    match ds with
    | [c] => c :: exponentChars lead
    | c :: rest => c :: '.' :: rest ++ exponentChars lead
    | [] => exponentChars lead

/-- Zero in a style, without a sign. -/
def Style.zero (style : Style) : List Char := if style.wholeFraction then ['0', '.', '0'] else ['0']

/-- A finite double in a style; zero keeps its sign where a whole number keeps a fraction. -/
def Style.writeFloat (style : Style) (x : Float) : List Char :=
  let negative := isNegative x
  if x == 0 then
    if negative && style.wholeFraction then '-' :: style.zero else style.zero
  else if negative then '-' :: style.write (shortest x) else style.write (shortest x)

/-- The digits of an integer with its sign. -/
def intChars (n : Int) : List Char :=
  if n < 0 then '-' :: digitChars n.natAbs else digitChars n.natAbs

end LoadHook.Decimal
