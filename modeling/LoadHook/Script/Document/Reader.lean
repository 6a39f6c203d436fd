import LoadHook.Script.Document.Basic

/-!
# Reading data of scripts

JSON text in units, read to the end. White space is the blank, the tab, the line feed and
the carriage return; any escape of four digits is allowed in a text, half of a surrogate
pair too.
-/
namespace LoadHook.Script.Document

open Text (Utf16)

/-- White space between tokens. -/
def isSpace (u : UInt16) : Bool := u == 32 || u == 9 || u == 10 || u == 13

/-- The units after white space. -/
def skipSpace (us : Utf16) : Utf16 := us.dropWhile isSpace

/-- Whether a unit is a decimal digit. -/
def isDigit (u : UInt16) : Bool := 48 ≤ u && u ≤ 57

/-- The value of a hexadecimal digit. -/
def hexDigit? (u : UInt16) : Option Nat :=
  if isDigit u then some (u.toNat - 48)
  else if 97 ≤ u && u ≤ 102 then some (u.toNat - 87)
  else if 65 ≤ u && u ≤ 70 then some (u.toNat - 55)
  else none

/-- The unit that a letter after a backslash stands for. -/
def escaped? (u : UInt16) : Option UInt16 :=
  if u == 34 || u == 92 || u == 47 then some u
  else if u == 98 then some 8
  else if u == 102 then some 12
  else if u == 110 then some 10
  else if u == 114 then some 13
  else if u == 116 then some 9
  else none

/-- Reads a text after its opening quote; gives its units and what follows it. -/
def text? : Utf16 → Option (Utf16 × Utf16)
  | [] => none
  | 34 :: rest => some ([], rest)
  | 92 :: 117 :: a :: b :: c :: d :: rest => do
    let n := (((← hexDigit? a) * 16 + (← hexDigit? b)) * 16 + (← hexDigit? c)) * 16 +
      (← hexDigit? d)
    let (us, rest) ← text? rest
    return (n.toUInt16 :: us, rest)
  | 92 :: u :: rest => do
    let v ← escaped? u
    let (us, rest) ← text? rest
    return (v :: us, rest)
  | u :: rest =>
    if u < 32 || u == 92 then none
    else do
      let (us, rest) ← text? rest
      return (u :: us, rest)

/-- Splits off digits, of which there must be one. -/
def digits? (us : Utf16) : Option (Utf16 × Utf16) :=
  let ds := us.takeWhile isDigit
  if ds.isEmpty then none else some (ds, us.drop ds.length)

/-- Splits off the whole part of a number, without needless zeros. -/
def whole? : Utf16 → Option (Utf16 × Utf16)
  | 48 :: rest => some ([48], rest)
  | us => digits? us

/-- Splits off a point with digits, if there is a point. -/
def places? : Utf16 → Option (Utf16 × Utf16)
  | 46 :: rest => (digits? rest).map fun (ds, rest) => (46 :: ds, rest)
  | us => some ([], us)

/-- Splits off an exponent, if there is one. -/
def exponent? : Utf16 → Option (Utf16 × Utf16)
  | [] => some ([], [])
  | e :: rest =>
    if e == 101 || e == 69 then
      let (sign, rest) : Utf16 × Utf16 := match rest with
        | s :: more => if s == 43 || s == 45 then ([s], more) else ([], rest)
        | [] => ([], [])
      (digits? rest).map fun (ds, rest) => (e :: sign ++ ds, rest)
    else some ([], e :: rest)

/-- Reads a number. -/
def number? (us : Utf16) : Option (Float × Utf16) := do
  let (sign, us) : Utf16 × Utf16 := match us with
    | 45 :: rest => ([45], rest)
    | us => ([], us)
  let (whole, us) ← whole? us
  let (places, us) ← places? us
  let (exponent, us) ← exponent? us
  let written := (sign ++ whole ++ places ++ exponent).map fun u => Char.ofNat u.toNat
  let (x, _) ← Numeric.decimalAt written
  return (x, us)

mutual

/-- Reads data in front of units; gives what follows it. Each nested part takes one of the
fuel. -/
def value? (fuel : Nat) (us : Utf16) : Option (Document × Utf16) :=
  match fuel with
  | 0 => none
  | n + 1 =>
    match skipSpace us with
    | 110 :: 117 :: 108 :: 108 :: rest => some (.null, rest)
    | 116 :: 114 :: 117 :: 101 :: rest => some (.bool true, rest)
    | 102 :: 97 :: 108 :: 115 :: 101 :: rest => some (.bool false, rest)
    | 34 :: rest => (text? rest).map fun (s, rest) => (.str s, rest)
    | 91 :: rest =>
      match skipSpace rest with
      | 93 :: rest => some (.arr [], rest)
      | rest => (items? n rest).map fun (ds, rest) => (.arr ds, rest)
    | 123 :: rest =>
      match skipSpace rest with
      | 125 :: rest => some (.obj [], rest)
      | rest => (members? n rest).map fun (ms, rest) => (.obj ms, rest)
    | us => (number? us).map fun (x, rest) => (.num x, rest)

/-- Reads items up to the closing bracket. -/
def items? (fuel : Nat) (us : Utf16) : Option (List Document × Utf16) :=
  match fuel with
  | 0 => none
  | n + 1 => do
    let (d, us) ← value? n us
    match skipSpace us with
    | 44 :: rest => (items? n rest).map fun (ds, rest) => (d :: ds, rest)
    | 93 :: rest => some ([d], rest)
    | _ => none

/-- Reads members up to the closing brace. -/
def members? (fuel : Nat) (us : Utf16) : Option (List (Key × Document) × Utf16) :=
  match fuel with
  | 0 => none
  | n + 1 =>
    match skipSpace us with
    | 34 :: rest => do
      let (k, us) ← text? rest
      match skipSpace us with
      | 58 :: us => do
        let (d, us) ← value? n us
        match skipSpace us with
        | 44 :: rest => (members? n rest).map fun (ms, rest) => ((k, d) :: ms, rest)
        | 125 :: rest => some ([(k, d)], rest)
        | _ => none
      | _ => none
    | _ => none

end

/-- The data that units are the text of. -/
def parse? (us : Utf16) : Option Document :=
  match value? (us.length + 1) us with
  | some (d, rest) => if (skipSpace rest).isEmpty then some d else none
  | none => none

end LoadHook.Script.Document
