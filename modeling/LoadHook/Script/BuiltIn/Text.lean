import LoadHook.Script.BuiltIn.Array

/-!
# Functions on texts

What the constructor of texts offers, and what every text inherits. Positions count
16-bit units.
-/
namespace LoadHook.Script.BuiltIn

open Text (Utf16)

variable (m : Machine) (realm : RealmRef)

/-- The text that a method is called on. -/
def textOf (this : Value) : Eval Utf16 := do
  if this.isPresent then m.toText realm this
  else typeError realm "null or undefined are forbidden"

/-- The first position of a text in another, not before a position. -/
def find? (sought : Utf16) (start : Nat) (s : Utf16) : Option Nat :=
  ((List.range (s.length + 1)).drop start).find? fun i => sought.isPrefixOf (s.drop i)

/-- The pieces of a text between separators, at most `fuel` of them. -/
def pieces (separator : Utf16) (fuel : Nat) (s : Utf16) : List Utf16 :=
  match fuel with
  | 0 => [s]
  | n + 1 =>
    match find? separator 0 s with
    | some i => s.take i :: pieces separator n (s.drop (i + separator.length))
    | none => [s]

/-- Whether a unit is white space or a line end. -/
def isBlankUnit (u : UInt16) : Bool := Numeric.isSpace (Char.ofNat u.toNat)

/-- The letter in upper case: of the basic letters, of Latin ones with marks, of Greek and of
Cyrillic ones. -/
def upperPoint (n : Nat) : List Nat :=
  if 0x61 ≤ n && n ≤ 0x7A then [n - 0x20]
  else if n = 0xDF then [0x53, 0x53]
  else if n = 0xB5 then [0x39C]
  else if n = 0xFF then [0x178]
  else if 0xE0 ≤ n && n ≤ 0xFE && n != 0xF7 then [n - 0x20]
  else if 0x100 ≤ n && n ≤ 0x137 && n % 2 = 1 && n != 0x131 then [n - 1]
  else if n = 0x131 then [0x49]
  else if 0x139 ≤ n && n ≤ 0x148 && n % 2 = 0 then [n - 1]
  else if 0x14A ≤ n && n ≤ 0x177 && n % 2 = 1 then [n - 1]
  else if n = 0x3AC then [0x386]
  else if 0x3AD ≤ n && n ≤ 0x3AF then [n - 37]
  else if n = 0x3C2 then [0x3A3]
  else if 0x3B1 ≤ n && n ≤ 0x3CB then [n - 0x20]
  else if n = 0x3CC then [0x38C]
  else if n = 0x3CD || n = 0x3CE then [n - 63]
  else if 0x430 ≤ n && n ≤ 0x44F then [n - 0x20]
  else if 0x450 ≤ n && n ≤ 0x45F then [n - 0x50]
  else [n]

/-- The letter in lower case, of the same letters. -/
def lowerPoint (n : Nat) : List Nat :=
  if 0x41 ≤ n && n ≤ 0x5A then [n + 0x20]
  else if 0xC0 ≤ n && n ≤ 0xDE && n != 0xD7 then [n + 0x20]
  else if n = 0x130 then [0x69, 0x307]
  else if n = 0x178 then [0xFF]
  else if 0x100 ≤ n && n ≤ 0x137 && n % 2 = 0 then [n + 1]
  else if 0x139 ≤ n && n ≤ 0x148 && n % 2 = 1 then [n + 1]
  else if 0x14A ≤ n && n ≤ 0x177 && n % 2 = 0 then [n + 1]
  else if n = 0x386 then [0x3AC]
  else if 0x388 ≤ n && n ≤ 0x38A then [n + 37]
  else if n = 0x38C then [0x3CC]
  else if n = 0x38E || n = 0x38F then [n + 63]
  else if 0x391 ≤ n && n ≤ 0x3AB then [n + 0x20]
  else if 0x410 ≤ n && n ≤ 0x42F then [n + 0x20]
  else if 0x400 ≤ n && n ≤ 0x40F then [n + 0x50]
  else [n]

/-- A text with its letters changed. -/
def mapLetters (f : Nat → List Nat) (s : Utf16) : Utf16 :=
  s.flatMap fun u => (f u.toNat).map Nat.toUInt16

/-- Replaces the marks for what was found in a replacement. -/
def expandReplacement (found : Utf16) : Utf16 → Utf16
  | 36 :: 36 :: rest => 36 :: expandReplacement found rest
  | 36 :: 38 :: rest => found ++ expandReplacement found rest
  | u :: rest => u :: expandReplacement found rest
  | [] => []

/-- The text that replaces what was found at a position. -/
def replacementFor (s found : Utf16) (i : Nat) (with' : Value) : Eval Utf16 := do
  if ← Eval.read (·.callable with') then
    m.toText realm (← m.call realm with' .undefined [.str found, .nat i, .str s])
  else return expandReplacement found (← m.toText realm with')

/-- A text with every piece that was found replaced, from a position on. -/
def replaceEvery (s sought : Utf16) (with' : Value) (fuel i : Nat) : Eval Utf16 := do
  match fuel with
  | 0 => return s.drop i
  | n + 1 =>
    match find? sought i s with
    | none => return s.drop i
    | some j =>
      let new ← replacementFor m realm s sought j with'
      let next := j + max 1 sought.length
      let between := if sought.isEmpty then (s.drop j).take 1 else []
      let rest ← if next > s.length then pure [] else replaceEvery s sought with' n next
      return (s.drop i).take (j - i) ++ new ++ between ++ rest

/-- A text filled up to a length. -/
def pad (args : List Value) (s : Utf16) (atStart : Bool) : Eval Value := do
  let n := (← m.toInteger realm (argument args 0)).toNat
  let filler ← match argument args 1 with
    | .undefined => pure [32]
    | v => m.toText realm v
  if n ≤ s.length || filler.isEmpty then return .str s
  let missing := n - s.length
  let fill := ((List.replicate missing filler).flatten).take missing
  return .str (if atStart then fill ++ s else s ++ fill)

/-! ## Tables -/

/-- The functions of the constructor of texts. -/
def textFunctions : List BuiltIn := [
  ⟨"fromCharCode", 1, fun m realm _ args => do
    return .str (← Eval.collect (fun v => do
      return ((Numeric.toUInt32 (← m.toNumber realm v)).toNat % 65536).toUInt16) args)⟩,
  ⟨"fromCodePoint", 1, fun m realm _ args => do
    return .str (← Eval.collect (fun v => do
      let x ← m.toNumber realm v
      let n := Numeric.truncate x
      if !Numeric.isWhole x || n < 0 || n > 0x10FFFF then
        raise realm .range "invalid code point"
      let n := n.toNat
      if n < 0x10000 then return [n.toUInt16]
      else return [(0xD800 + (n - 0x10000) / 0x400).toUInt16,
        (0xDC00 + (n - 0x10000) % 0x400).toUInt16]) args).flatten⟩]

/-- The methods that give a part of a text. -/
def textParts : List BuiltIn := [
  ⟨"at", 1, fun m realm this args => do
    let s ← textOf m realm this
    let i ← m.toInteger realm (argument args 0)
    let i := if i < 0 then i + s.length else i
    if i < 0 then return .undefined
    else return ((s[i.toNat]?).map fun u => .str [u]).getD .undefined⟩,
  ⟨"charAt", 1, fun m realm this args => do
    let s ← textOf m realm this
    let i ← m.toInteger realm (argument args 0)
    if i < 0 then return .str [] else return .str ((s.drop i.toNat).take 1)⟩,
  ⟨"charCodeAt", 1, fun m realm this args => do
    let s ← textOf m realm this
    let i ← m.toInteger realm (argument args 0)
    match if i < 0 then none else s[i.toNat]? with
    | some u => return .nat u.toNat
    | none => return .num Numeric.nan⟩,
  ⟨"codePointAt", 1, fun m realm this args => do
    let s ← textOf m realm this
    let i ← m.toInteger realm (argument args 0)
    match if i < 0 then [] else s.drop i.toNat with
    | [] => return .undefined
    | [u] => return .nat u.toNat
    | u :: v :: _ =>
      if Utf16.isLead u && Utf16.isTrail v then return .nat (Utf16.pairPoint u v)
      else return .nat u.toNat⟩,
  ⟨"slice", 2, fun m realm this args => do
    let s ← textOf m realm this
    let start ← indexArgument m realm args 0 s.length 0
    let stop ← indexArgument m realm args 1 s.length s.length
    return .str ((s.take stop).drop start)⟩,
  ⟨"substring", 2, fun m realm this args => do
    let s ← textOf m realm this
    let start := min (← m.toInteger realm (argument args 0)).toNat s.length
    let stop ← match argument args 1 with
      | .undefined => pure s.length
      | v => do pure (min (← m.toInteger realm v).toNat s.length)
    return .str ((s.take (max start stop)).drop (min start stop))⟩,
  ⟨"substr", 2, fun m realm this args => do
    let s ← textOf m realm this
    let start ← indexArgument m realm args 0 s.length 0
    let count ← match argument args 1 with
      | .undefined => pure s.length
      | v => do pure (← m.toInteger realm v).toNat
    return .str ((s.drop start).take count)⟩,
  ⟨"split", 2, fun m realm this args => do
    let s ← textOf m realm this
    let limit ← match argument args 1 with
      | .undefined => pure (Nat.pow 2 32 - 1)
      | v => do pure (Numeric.toUInt32 (← m.toNumber realm v)).toNat
    let parts ← match argument args 0 with
      | .undefined => pure [s]
      | v => do
        let separator ← m.toText realm v
        if separator.isEmpty then pure (s.map fun u => [u])
        else pure (pieces separator s.length s)
    keyArray realm (parts.take limit)⟩,
  ⟨"trim", 0, fun m realm this _ => do
    let s ← textOf m realm this
    return .str ((s.dropWhile isBlankUnit).reverse.dropWhile isBlankUnit).reverse⟩,
  ⟨"trimStart", 0, fun m realm this _ => do
    return .str ((← textOf m realm this).dropWhile isBlankUnit)⟩,
  ⟨"trimEnd", 0, fun m realm this _ => do
    return .str ((← textOf m realm this).reverse.dropWhile isBlankUnit).reverse⟩]

/-- The methods that look for a text. -/
def textSearches : List BuiltIn := [
  ⟨"indexOf", 1, fun m realm this args => do
    let s ← textOf m realm this
    let sought ← m.toText realm (argument args 0)
    let start := min (← m.toInteger realm (argument args 1)).toNat s.length
    return ((find? sought start s).map .nat).getD (.num (-1))⟩,
  ⟨"lastIndexOf", 1, fun m realm this args => do
    let s ← textOf m realm this
    let sought ← m.toText realm (argument args 0)
    let x ← m.toNumber realm (argument args 1)
    let last := if x.isNaN then s.length else min (Numeric.truncate x).toNat s.length
    let found := (List.range (last + 1)).reverse.find? fun i => sought.isPrefixOf (s.drop i)
    return (found.map .nat).getD (.num (-1))⟩,
  ⟨"includes", 1, fun m realm this args => do
    let s ← textOf m realm this
    let sought ← m.toText realm (argument args 0)
    let start := min (← m.toInteger realm (argument args 1)).toNat s.length
    return .bool (find? sought start s).isSome⟩,
  ⟨"startsWith", 1, fun m realm this args => do
    let s ← textOf m realm this
    let sought ← m.toText realm (argument args 0)
    let start := min (← m.toInteger realm (argument args 1)).toNat s.length
    return .bool (sought.isPrefixOf (s.drop start))⟩,
  ⟨"endsWith", 1, fun m realm this args => do
    let s ← textOf m realm this
    let sought ← m.toText realm (argument args 0)
    let stop ← match argument args 1 with
      | .undefined => pure s.length
      | v => do pure (min (← m.toInteger realm v).toNat s.length)
    return .bool (sought.isSuffixOf (s.take stop))⟩,
  ⟨"localeCompare", 1, fun m realm this args => do
    let s ← textOf m realm this
    let t ← m.toText realm (argument args 0)
    return .num (if s == t then 0 else if Machine.before s t then -1 else 1)⟩]

/-- The methods that give another text. -/
def textChanges : List BuiltIn := [
  ⟨"concat", 1, fun m realm this args => do
    let s ← textOf m realm this
    return .str (s ++ (← Eval.collect (m.toText realm) args).flatten)⟩,
  ⟨"repeat", 1, fun m realm this args => do
    let s ← textOf m realm this
    let n ← m.toInteger realm (argument args 0)
    if n < 0 || n > 0x3FFFFFFF then raise realm .range "invalid repeat count"
    return .str (List.replicate (if s.isEmpty then 0 else n.toNat) s).flatten⟩,
  ⟨"padStart", 1, fun m realm this args => do
    pad m realm args (← textOf m realm this) true⟩,
  ⟨"padEnd", 1, fun m realm this args => do
    pad m realm args (← textOf m realm this) false⟩,
  ⟨"replace", 2, fun m realm this args => do
    let s ← textOf m realm this
    let sought ← m.toText realm (argument args 0)
    match find? sought 0 s with
    | none => return .str s
    | some i =>
      let new ← replacementFor m realm s sought i (argument args 1)
      return .str (s.take i ++ new ++ s.drop (i + sought.length))⟩,
  ⟨"replaceAll", 2, fun m realm this args => do
    let s ← textOf m realm this
    let sought ← m.toText realm (argument args 0)
    return .str (← replaceEvery m realm s sought (argument args 1) (s.length + 1) 0)⟩,
  ⟨"toLowerCase", 0, fun m realm this _ => do
    return .str (mapLetters lowerPoint (← textOf m realm this))⟩,
  ⟨"toUpperCase", 0, fun m realm this _ => do
    return .str (mapLetters upperPoint (← textOf m realm this))⟩]

/-- The text that a value is or wraps. -/
def wrappedText (this : Value) : Eval Value := do
  match this with
  | .str s => return .str s
  | .obj r =>
    match (← Eval.read (·.object r)).kind with
    | .string s => return .str s
    | _ => typeError realm "not a string"
  | _ => typeError realm "not a string"

/-- The methods that give the text itself. -/
def textValues : List BuiltIn := [
  ⟨"toString", 0, fun _ realm this _ => wrappedText realm this⟩,
  ⟨"valueOf", 0, fun _ realm this _ => wrappedText realm this⟩]

/-- The functions that every text inherits. -/
def textMethods : List BuiltIn := textParts ++ textSearches ++ textChanges ++ textValues

end LoadHook.Script.BuiltIn
