import LoadHook.Json.Cursor
import LoadHook.Json.Value

/-!
# Numbers in JSON text

A number without fraction and exponent that fits 64 bits is whole; `-0` and every
other number is a double. The double comes from at most the digits that fit an
unsigned 64-bit word, scaled by one power of ten, so that a number with more digits
may miss the nearest double by a bit.
-/
namespace LoadHook.Json.Cursor

/-- The largest unsigned 64-bit word. -/
def wordMax : Nat := Nat.pow 2 64 - 1

/-- The value of a decimal digit. -/
def digit? (c : Cursor) : Option Nat :=
  match c.rest with
  | ch :: _ => if ch.isDigit then some (ch.toNat - 48) else none
  | [] => none

/-- Passes decimal digits. -/
def skipDigits (c : Cursor) : Cursor :=
  let ds := c.rest.takeWhile Char.isDigit
  ⟨c.rest.drop ds.length, c.line, c.column + ds.length⟩

/-- Scales `x` by ten to the power `exponent`; none when the result is infinite. -/
def scale (fuel : Nat) (x : Float) (exponent : Int) : Option Float :=
  match fuel with
  | 0 => some x
  | n + 1 =>
    if exponent.natAbs ≤ 308 then
      let power := Decimal.toFloat 1 exponent.natAbs
      if exponent ≥ 0 then
        let y := x * power
        if Decimal.isFinite y then some y else none
      else some (x / power)
    else if x == 0 then some x
    else if exponent ≥ 0 then none
    else scale n (x / Decimal.toFloat 1 308) (exponent + 308)

/-- The double of a sign, a significand and a power of ten. -/
def float (c : Cursor) (negative : Bool) (significand : Nat) (exponent : Int) :
    Except Fault (Json × Cursor) :=
  match scale 8 (Decimal.toFloat significand 0) exponent with
  | none => c.fault .outOfRange
  | some x => .ok (.real (if negative then -x else x), c)

/-- Reads the digits of an exponent, `read` being the value of those passed. None when
they exceed 31 bits. -/
def exponentDigits (fuel : Nat) (c : Cursor) (read : Nat) : Option Nat × Cursor :=
  match fuel with
  | 0 => (some read, c)
  | n + 1 =>
    match c.digit? with
    | none => (some read, c)
    | some d =>
      if read * 10 + d > 2147483647 then (none, c.next) else exponentDigits n c.next (read * 10 + d)

/-- Reads an exponent, its mark being the next character. -/
def exponent (c : Cursor) (negative : Bool) (significand : Nat) (before : Int) :
    Except Fault (Json × Cursor) :=
  let c := c.next
  let (down, c) := match c.peek with
    | some '+' => (false, c.next)
    | some '-' => (true, c.next)
    | _ => (false, c)
  match c.peek, c.digit? with
  | none, _ => c.fault .eofValue
  | some _, none => c.next.fault .badNumber
  | some _, some d =>
    match exponentDigits (c.rest.length + 1) c.next d with
    | (none, c) =>
      if significand != 0 && !down then c.fault .outOfRange
      else .ok (.real (if negative then -0.0 else 0.0), c.skipDigits)
    | (some e, c) => c.float negative significand (if down then before - e else before + e)

/-- Whether the next character marks an exponent. -/
def atExponent (c : Cursor) : Bool := c.peek == some 'e' || c.peek == some 'E'

/-- Reads the digits of a fraction: the significand grown by those that fit a word, how
many did, and whether one did not. -/
def fractionDigits (fuel : Nat) (c : Cursor) (significand count : Nat) :
    Nat × Nat × Bool × Cursor :=
  match fuel with
  | 0 => (significand, count, false, c)
  | n + 1 =>
    match c.digit? with
    | none => (significand, count, false, c)
    | some d =>
      if significand * 10 + d > wordMax then (significand, count, true, c)
      else fractionDigits n c.next (significand * 10 + d) (count + 1)

/-- Reads a fraction, its point being the next character. -/
def fraction (c : Cursor) (negative : Bool) (significand : Nat) (before : Int) :
    Except Fault (Json × Cursor) :=
  let c := c.next
  let (significand, count, full, c) := fractionDigits (c.rest.length + 1) c significand 0
  let c := if full then c.skipDigits else c
  if count = 0 && !full then
    match c.peek with
    | some _ => c.faultAhead .badNumber
    | none => c.faultAhead .eofValue
  else if c.atExponent then c.exponent negative significand (before - count)
  else c.float negative significand (before - count)

/-- Reads on after digits that no longer fit a word, each further digit counting as a power of
ten. -/
def long (c : Cursor) (negative : Bool) (significand : Nat) : Except Fault (Json × Cursor) :=
  let more := c.rest.takeWhile Char.isDigit
  let c := c.skipDigits
  if c.peek == some '.' then c.fraction negative significand more.length
  else if c.atExponent then c.exponent negative significand more.length
  else c.float negative significand more.length

/-- The number whose whole part has been read. -/
def whole (c : Cursor) (negative : Bool) (significand : Nat) : Except Fault (Json × Cursor) :=
  if c.peek == some '.' then c.fraction negative significand 0
  else if c.atExponent then c.exponent negative significand 0
  else if !negative then .ok (.int significand, c)
  else if significand = 0 || significand > Nat.pow 2 63 then
    .ok (.real (-(Decimal.toFloat significand 0)), c)
  else .ok (.int (-(significand : Int)), c)

/-- Reads the digits of the whole part, `read` being the value of those passed. -/
def wholeDigits (fuel : Nat) (c : Cursor) (negative : Bool) (read : Nat) :
    Except Fault (Json × Cursor) :=
  match fuel with
  | 0 => c.whole negative read
  | n + 1 =>
    match c.digit? with
    | none => c.whole negative read
    | some d =>
      if read * 10 + d > wordMax then c.long negative read
      else wholeDigits n c.next negative (read * 10 + d)

/-- Reads a number after its sign. -/
def number (c : Cursor) (negative : Bool) : Except Fault (Json × Cursor) :=
  match c.peek, c.digit? with
  | none, _ => c.fault .eofValue
  | some _, none => c.next.fault .badNumber
  | some _, some 0 =>
    if c.next.digit?.isSome then c.next.faultAhead .badNumber else c.next.whole negative 0
  | some _, some d => wholeDigits (c.rest.length + 1) c.next negative d

end LoadHook.Json.Cursor
