import LoadHook.Json.Reader

/-!
# Passing over JSON values

A value that nobody asks for is passed over: its form is checked, but numbers may be
out of range, surrogates may stand alone, and nothing limits how deep it is nested.
-/
namespace LoadHook.Json.Cursor

/-- Passes what follows a backslash. -/
def skipEscape (c : Cursor) : Except Fault (Unit × Cursor) :=
  match c.peek with
  | none => c.fault .eofString
  | some 'u' => do
    let (_, c) ← c.next.hex4
    return ((), c)
  | some ch => if (simpleEscape ch).isSome then .ok ((), c.next) else c.next.fault .badEscape

/-- Passes a string whose opening quote has been passed, of at most `fuel` characters. -/
def skipStringUpTo (fuel : Nat) (c : Cursor) : Except Fault (Unit × Cursor) :=
  match fuel with
  | 0 => c.fault .eofString
  | n + 1 =>
    match c.peek with
    | none => c.fault .eofString
    | some '"' => .ok ((), c.next)
    | some '\\' => do
      let ((), c) ← c.next.skipEscape
      skipStringUpTo n c
    | some ch =>
      if ch.toNat < 0x20 then c.fault .controlCharacter else skipStringUpTo n c.next

/-- Passes a string whose opening quote has been passed. -/
def skipString (c : Cursor) : Except Fault (Unit × Cursor) := skipStringUpTo (c.rest.length + 1) c

/-- Passes an exponent, its mark being the next character. -/
def skipExponent (c : Cursor) : Except Fault (Unit × Cursor) :=
  let c := c.next
  let c := if c.peek == some '+' || c.peek == some '-' then c.next else c
  if c.digit?.isSome then .ok ((), c.skipDigits) else c.next.fault .badNumber

/-- Passes a fraction, its point being the next character. -/
def skipFraction (c : Cursor) : Except Fault (Unit × Cursor) :=
  let c := c.next
  if c.digit?.isNone then c.faultAhead .badNumber
  else
    let c := c.skipDigits
    if c.atExponent then c.skipExponent else .ok ((), c)

/-- Passes a number after its sign. -/
def skipNumber (c : Cursor) : Except Fault (Unit × Cursor) :=
  match c.digit? with
  | none => c.next.fault .badNumber
  | some d =>
    if d = 0 && c.next.digit?.isSome then c.next.faultAhead .badNumber
    else
      let c := if d = 0 then c.next else c.skipDigits
      if c.peek == some '.' then c.skipFraction
      else if c.atExponent then c.skipExponent
      else .ok ((), c)

/-- Passes the name of a member and the colon after it. -/
def skipName (c : Cursor) : Except Fault (Unit × Cursor) := do
  let c := c.skipSpace
  match c.peek with
  | some '"' =>
    let ((), c) ← c.next.skipString
    let c := c.skipSpace
    match c.peek with
    | some ':' => .ok ((), c.next)
    | some _ => c.faultAhead .expectedColon
    | none => c.faultAhead .eofObject
  | some _ => c.faultAhead .keyNotString
  | none => c.faultAhead .eofObject

mutual

/-- Passes over a value. -/
def skipValue (fuel : Nat) (c : Cursor) : Except Fault (Unit × Cursor) :=
  match fuel with
  | 0 => c.fault .tooDeep
  | n + 1 =>
    let c := c.skipSpace
    match c.peek with
    | none => c.faultAhead .eofValue
    | some 'n' => c.next.word ['u', 'l', 'l']
    | some 't' => c.next.word ['r', 'u', 'e']
    | some 'f' => c.next.word ['a', 'l', 's', 'e']
    | some '-' => c.next.skipNumber
    | some '"' => c.next.skipString
    | some '[' => skipRest n false true c.next
    | some '{' => skipRest n true true c.next
    | some ch => if ch.isDigit then c.skipNumber else c.faultAhead .expectedValue

/-- Passes over the rest of a list or of an object. -/
def skipRest (fuel : Nat) (object first : Bool) (c : Cursor) : Except Fault (Unit × Cursor) :=
  match fuel with
  | 0 => c.fault .tooDeep
  | n + 1 => do
    let c := c.skipSpace
    match c.peek with
    | none => c.faultAhead (if object then .eofObject else .eofList)
    | some ch =>
      if ch = (if object then '\x7d' else ']') then .ok ((), c.next)
      else if !first && ch != ',' then
        c.faultAhead (if object then .expectedObjectEnd else .expectedListEnd)
      else
        let c := if first then c else c.next
        let ((), c) ← if object then c.skipName else .ok ((), c)
        let ((), c) ← skipValue n c
        skipRest n object false c

end

/-- Passes over the value that comes next. -/
def skip (c : Cursor) : Except Fault (Unit × Cursor) := skipValue (2 * c.rest.length + 2) c

end LoadHook.Json.Cursor
