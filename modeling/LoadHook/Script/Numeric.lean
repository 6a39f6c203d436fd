import LoadHook.Decimal.Notation
import LoadHook.Script.Token

/-!
# Numbers in scripts

The text of a number, the number of a text, and the whole numbers that operators on bits
work with. All in exact arithmetic on the significand and exponent of a double.
-/
namespace LoadHook.Script.Numeric

open Decimal (isFinite isNegative)

/-- Numbers are written positionally for leading exponents from -6 to 20, whole ones without
a fraction. -/
def style : Decimal.Style := ⟨-6, 20, false⟩

/-- Infinity. -/
def infinity : Float := Float.ofBits 0x7FF0000000000000

/-- The number that is no number. -/
def nan : Float := Float.ofBits 0x7FF8000000000000

/-- The text of a number. -/
def text (x : Float) : String :=
  if isFinite x then String.ofList (style.writeFloat x)
  else if x.isNaN then "NaN"
  else if isNegative x then "-Infinity" else "Infinity"

/-- The magnitude of a number as a fraction. -/
def fraction (x : Float) : Nat × Nat :=
  let (m, q) := Decimal.decode (x.toBits &&& 0x7FFFFFFFFFFFFFFF)
  if q < 0 then (m, Nat.pow 2 q.natAbs) else (m * Nat.pow 2 q.natAbs, 1)

/-- A number without its fraction; zero for NaN and the infinities. -/
def truncate (x : Float) : Int :=
  if isFinite x then
    let (num, den) := fraction x
    if isNegative x then -((num / den : Nat) : Int) else (num / den : Nat)
  else 0

/-- Whether a number has no fraction. -/
def isWhole (x : Float) : Bool :=
  isFinite x && (let (num, den) := fraction x; num % den == 0)

/-- The number nearest to a whole number. -/
def ofInt (n : Int) : Float :=
  let x := Decimal.nearest n.natAbs 1
  if n < 0 then -x else x

/-- The whole number of 32 bits without sign that a number stands for. -/
def toUInt32 (x : Float) : UInt32 := ((truncate x) % Int.pow 2 32).toNat.toUInt32

/-- The value of 32 bits with sign. -/
def signed (n : UInt32) : Int :=
  if n.toNat < Nat.pow 2 31 then n.toNat else (n.toNat : Int) - Int.pow 2 32

/-- The whole number of 32 bits with sign that a number stands for. -/
def toInt32 (x : Float) : Int := signed (toUInt32 x)

/-- The number as a whole number of 32 bits with sign, if it is one; minus zero is none. -/
def int32? (x : Float) : Option Int :=
  if isWhole x && !(x == 0 && isNegative x) then
    let n := truncate x
    if -Int.pow 2 31 ≤ n && n < Int.pow 2 31 then some n else none
  else none

/-- The remainder of a division that goes toward zero; it has the sign of the dividend. -/
def remainder (x y : Float) : Float :=
  if !isFinite x || y.isNaN || y == 0 then nan
  else if !isFinite y || x == 0 then x
  else
    let (mx, qx) := Decimal.decode (x.toBits &&& 0x7FFFFFFFFFFFFFFF)
    let (my, qy) := Decimal.decode (y.toBits &&& 0x7FFFFFFFFFFFFFFF)
    let q := min qx qy
    let r := (mx * Nat.pow 2 (qx - q).toNat) % (my * Nat.pow 2 (qy - q).toNat)
    let magnitude := if q < 0 then Decimal.nearest r (Nat.pow 2 q.natAbs)
      else Decimal.nearest (r * Nat.pow 2 q.natAbs) 1
    if isNegative x then -magnitude else magnitude

/-- A number to a power. -/
def power (x y : Float) : Float :=
  if y.isNaN then nan
  else if (x == 1 || x == -1) && !isFinite y then nan
  else Float.pow x y

/-! ## Text to number -/

/-- White space around numbers. -/
def isSpace (c : Char) : Bool := Token.isSpace c || Token.isLineEnd c

/-- A text without the white space at either end. -/
def strip (cs : List Char) : List Char :=
  ((cs.dropWhile isSpace).reverse.dropWhile isSpace).reverse

/-- Passes a sign; tells whether it is a minus. -/
def signAt : List Char → Bool × List Char
  | '-' :: rest => (true, rest)
  | '+' :: rest => (false, rest)
  | cs => (false, cs)

/-- The digits behind a point, and the text after them. There is none where neither digits stand
before it nor behind it. -/
def placesAt (whole : Bool) (cs : List Char) : List Char × List Char :=
  match cs with
  | '.' :: more =>
    let ds := more.takeWhile Char.isDigit
    if !whole && ds.isEmpty then ([], cs) else (ds, more.drop ds.length)
  | cs => ([], cs)

/-- The exponent in front of a text, zero if there is none, and the text after it. -/
def exponentAt (cs : List Char) : Int × List Char :=
  match cs with
  | c :: more =>
    if c = 'e' || c = 'E' then
      let (down, digits) := signAt more
      let ds := digits.takeWhile Char.isDigit
      if ds.isEmpty then (0, cs)
      else
        let n := (Token.digits? 10 ds).getD 0
        (if down then -(n : Int) else n, digits.drop ds.length)
    else (0, cs)
  | [] => (0, [])

/-- The longest decimal number in front of a text, and the text after it. -/
def decimalAt (cs : List Char) : Option (Float × List Char) :=
  let (negative, cs) := signAt cs
  let signedValue (x : Float) : Float := if negative then -x else x
  if "Infinity".toList.isPrefixOf cs then some (signedValue infinity, cs.drop 8)
  else
    let whole := cs.takeWhile Char.isDigit
    let (places, rest) := placesAt (!whole.isEmpty) (cs.drop whole.length)
    if whole.isEmpty && places.isEmpty then none
    else
      let (e, rest) := exponentAt rest
      let n := (Token.digits? 10 (whole ++ places)).getD 0
      some (signedValue (Decimal.toFloat n (e - places.length)), rest)

/-- The number of a text as a whole. -/
def ofText (cs : List Char) : Float :=
  match strip cs with
  | [] => 0
  | '0' :: c :: ds =>
    let base := if c = 'x' || c = 'X' then 16 else if c = 'o' || c = 'O' then 8
      else if c = 'b' || c = 'B' then 2 else 10
    if base = 10 then ofDecimal ('0' :: c :: ds)
    else match ds, Token.digits? base ds with
      | [], _ => nan
      | _, some n => Decimal.toFloat n 0
      | _, none => nan
  | cs => ofDecimal cs
where
  /-- The number of a text that is a decimal number as a whole. -/
  ofDecimal (cs : List Char) : Float :=
    match decimalAt cs with
    | some (x, []) => x
    | _ => nan

/-- The whole number in a base in front of a text. -/
def parseInt (cs : List Char) (base : Int) : Float :=
  let (negative, cs) := signAt (cs.dropWhile isSpace)
  if base != 0 && (base < 2 || base > 36) then nan
  else
    let marked := match cs with
      | '0' :: 'x' :: _ => true
      | '0' :: 'X' :: _ => true
      | _ => false
    let (base, cs) : Nat × List Char :=
      if marked && (base = 0 || base = 16) then (16, cs.drop 2)
      else (if base = 0 then 10 else base.toNat, cs)
    let digit? (c : Char) : Option Nat :=
      let n := if c.isDigit then c.toNat - 48
        else if 'a' ≤ c && c ≤ 'z' then c.toNat - 87
        else if 'A' ≤ c && c ≤ 'Z' then c.toNat - 55 else 99
      if n < base then some n else none
    let ds := (cs.takeWhile fun c => (digit? c).isSome).filterMap digit?
    if ds.isEmpty then nan
    else
      let x := Decimal.nearest (ds.foldl (fun n d => n * base + d) 0) 1
      if negative then -x else x

/-- The number in front of a text. -/
def parseFloat (cs : List Char) : Float :=
  match decimalAt (cs.dropWhile isSpace) with
  | some (x, _) => x
  | none => nan

/-! ## Other texts of numbers -/

/-- A number with a fixed number of decimal places, a half going up in magnitude. -/
def fixed (x : Float) (places : Nat) : String :=
  let (num, den) := fraction x
  let scaled := num * Nat.pow 10 places
  let n := (2 * scaled + den) / (2 * den)
  let ds := Nat.toDigits 10 n
  let ds := List.replicate (places + 1 - ds.length) '0' ++ ds
  let whole := ds.take (ds.length - places)
  let rest := ds.drop (ds.length - places)
  let body := if places = 0 then whole else whole ++ '.' :: rest
  String.ofList (if isNegative x && n != 0 then '-' :: body else body)

/-- The places after the point of a fraction in a base, at most `fuel` of them. -/
def placesIn (base fuel num den : Nat) : List Char :=
  match fuel with
  | 0 => []
  | n + 1 =>
    if num = 0 then []
    else Nat.digitChar (num * base / den) :: placesIn base n (num * base % den) den

/-- The digits of a natural in a base of at most 36. -/
def digitsIn (base fuel n : Nat) (read : List Char) : List Char :=
  match fuel with
  | 0 => read
  | f + 1 =>
    let d := n % base
    let c := if d < 10 then Char.ofNat (48 + d) else Char.ofNat (87 + d)
    if n / base = 0 then c :: read else digitsIn base f (n / base) (c :: read)

/-- The text of a finite number in a base. -/
def inBase (x : Float) (base : Nat) : String :=
  if base = 10 || !isFinite x then text x
  else
    let (num, den) := fraction x
    let whole := digitsIn base 1100 (num / den) []
    let rest := placesIn base 52 (num % den) den
    let body := if rest.isEmpty then whole else whole ++ '.' :: rest
    String.ofList (if isNegative x && num != 0 then '-' :: body else body)

end LoadHook.Script.Numeric
