import LoadHook.Decimal.Rounding
import LoadHook.Json.Relaxed.Term
import LoadHook.Json.Value

/-!
# Relaxed JSON: what the terms mean

A term of the grammar need not have a value: a number may be out of range and an
escape may be half a surrogate pair. The first fault in the order of the text is
reported. Infinities and NaN read as null.
-/
namespace LoadHook.Json.Relaxed

/-- What can be wrong with a text in relaxed JSON. -/
inductive Fault where
  /-- The text is outside the grammar. -/
  | grammar
  | badHex | badInteger | badNumber | tooLarge
  | loneTrail | missingTrail | expectedTrail
  deriving DecidableEq, Repr

/-- The text of a fault. The report on a text outside the grammar is left to the reader. -/
def Fault.message : Fault → String
  | .grammar => "<syntax error>"
  | .badHex => "error parsing hex"
  | .badInteger => "error parsing integer"
  | .badNumber => "error parsing number"
  | .tooLarge => "error parsing number: too large"
  | .loneTrail => "unexpected unicode trail surrogate"
  | .missingTrail => "missing unicode trail surrogate"
  | .expectedTrail => "expecting unicode trail surrogate"

/-- The characters of a piece that are read as a second half of a surrogate pair. -/
def Piece.written : Piece → List Char
  | .plain c => [c]
  | .escape c => [c]
  | .nul => ['0']
  | .hex ds => ds
  | .unit ds => ds

/-- The character that an escaped one stands for. -/
def escaped (c : Char) : Char :=
  match c with
  | 'b' => '\x08'
  | 'f' => '\x0c'
  | 'n' => '\n'
  | 'r' => '\r'
  | 't' => '\t'
  | 'v' => '\x0b'
  | _ => c

/-- The value of hexadecimal digits that fit 32 bits. -/
def hex32 (ds : List Char) : Except Fault Nat :=
  match Cursor.hexNumber ds with
  | some n => if ds.isEmpty || n ≥ Nat.pow 2 32 then .error .badHex else .ok n
  | none => .error .badHex

/-- The character of a surrogate pair. The halves are joined bit by bit, with no carry. -/
def pairChar (lead trail : Nat) : Char :=
  Char.ofNat (((lead - 0xD800) <<< 10) ||| ((trail - 0xDC00) + 0x10000))

/-- The text of a string or name. -/
def textOf : List Piece → Except Fault (List Char)
  | [] => .ok []
  | .plain c :: rest => do return c :: (← textOf rest)
  | .escape c :: rest => do return escaped c :: (← textOf rest)
  | .nul :: rest => do return '\x00' :: (← textOf rest)
  | .hex ds :: rest => do
    let n ← hex32 ds
    return Char.ofNat n :: (← textOf rest)
  | [.unit ds] => do
    let n ← hex32 ds
    if 0xDC00 ≤ n && n ≤ 0xDFFF then .error .loneTrail
    else if 0xD800 ≤ n && n ≤ 0xDBFF then .error .missingTrail
    else return [Char.ofNat n]
  | .unit ds :: p :: rest => do
    let n ← hex32 ds
    if 0xDC00 ≤ n && n ≤ 0xDFFF then .error .loneTrail
    else if 0xD800 ≤ n && n ≤ 0xDBFF then
      let t ← hex32 p.written
      if 0xDC00 ≤ t && t ≤ 0xDFFF then return pairChar n t :: (← textOf rest)
      else .error .expectedTrail
    else return Char.ofNat n :: (← textOf (p :: rest))

/-- The value of decimal digits. -/
def decimalNumber (ds : List Char) : Nat := ds.foldl (fun n c => n * 10 + (c.toNat - 48)) 0

/-- A decimal without sign as digits and a power of ten. -/
def decimalParts (cs : List Char) : Nat × Int :=
  let (whole, rest) := span Char.isDigit cs
  let (fraction, rest) := match rest with
    | '.' :: rest => span Char.isDigit rest
    | _ => ([], rest)
  let e : Int := match rest with
    | _ :: '-' :: ds => -(decimalNumber ds : Int)
    | _ :: '+' :: ds => decimalNumber ds
    | _ :: ds => decimalNumber ds
    | [] => 0
  (decimalNumber (whole ++ fraction), e - fraction.length)

/-- The value of a number without sign that is neither whole nor a named one. -/
def realNumber (negative : Bool) (cs : List Char) : Except Fault Json :=
  match cs with
  | '0' :: 'x' :: _ | '0' :: 'X' :: _ => .error .badNumber
  | _ =>
    let (digits, e) := decimalParts cs
    let x := Decimal.toFloat digits e
    if Decimal.isFinite x then .ok (.real (if negative then -x else x)) else .error .tooLarge

/-- The value of a whole number of 64 bits with sign. -/
def wholeNumber (negative : Bool) (cs : List Char) : Except Fault Json :=
  let n := decimalNumber cs
  if !cs.all Char.isDigit then .error .badInteger
  else if negative then if n ≤ Nat.pow 2 63 then .ok (.int (-(n : Int))) else .error .badInteger
  else if n < Nat.pow 2 63 then .ok (.int n) else .error .badInteger

/-- Whether a number without sign is read as a whole one: it has no point, and no exponent
unless it is hexadecimal without sign. -/
def isWhole (signed : Bool) (cs : List Char) : Bool :=
  let hex := !signed && match cs with
    | '0' :: 'x' :: _ | '0' :: 'X' :: _ => true
    | _ => false
  !cs.contains '.' && (hex || !(cs.contains 'e' || cs.contains 'E'))

/-- The value of a number as written. -/
def numberValue (text : List Char) : Except Fault Json :=
  let (sign, body) := match text with
    | '+' :: body => (some '+', body)
    | '-' :: body => (some '-', body)
    | body => (none, body)
  let named := body == ['I', 'n', 'f', 'i', 'n', 'i', 't', 'y'] || body == ['N', 'a', 'N']
  if named && sign != some '+' then .ok .null
  else if isWhole sign.isSome body then
    match sign, body with
    | none, '0' :: 'x' :: ds | none, '0' :: 'X' :: ds => (hex32 ds).map fun n => .int n
    | _, _ => wholeNumber (sign == some '-') body
  else realNumber (sign == some '-') body

mutual

/-- The value of a term. -/
def Term.value : Term → Except Fault Json
  | .null => .ok .null
  | .bool b => .ok (.bool b)
  | .number text => numberValue text
  | .str ps => do return .str (String.ofList (← textOf ps))
  | .arr items => do return .arr (← itemValues items)
  | .obj members => do return ofMembers (← memberValues members)

/-- The values of the items of an array. -/
def itemValues : List Term → Except Fault (List Json)
  | [] => .ok []
  | t :: rest => do
    let j ← t.value
    return j :: (← itemValues rest)

/-- The values of the members of an object. -/
def memberValues : List (List Piece × Term) → Except Fault (List (String × Json))
  | [] => .ok []
  | (key, t) :: rest => do
    let name ← textOf key
    let j ← t.value
    return (String.ofList name, j) :: (← memberValues rest)

end

/-- Reads a text of relaxed JSON as one document. -/
def parse (cs : List Char) : Except Fault Json :=
  match read cs with
  | none => .error .grammar
  | some t => t.value

end LoadHook.Json.Relaxed
