import LoadHook.Text.Utf16
import LoadHook.Decimal.Rounding

/-!
# A place in JSON text

Reading keeps the place reached as line and column, the column counting bytes
since the last line feed. A fault is reported at the place itself or one byte
ahead of it, and every fault has one text.
-/
namespace LoadHook.Json

/-- What can be wrong with JSON text. -/
inductive FaultKind where
  | eofList | eofObject | eofString | eofValue
  | expectedColon | expectedListEnd | expectedObjectEnd | expectedWord | expectedValue
  | badEscape | badNumber | outOfRange | controlCharacter | keyNotString
  | loneSurrogate | trailingComma | trailingCharacters | endOfHexEscape | tooDeep
  | data (message : String)
  deriving DecidableEq, Repr

/-- The three families of faults: the text ends too soon, is malformed, or holds the wrong data. -/
inductive FaultClass where
  | eof | malformed | data
  deriving DecidableEq, Repr

/-- The text of a fault, its place left out. -/
def FaultKind.message : FaultKind → String
  | .eofList => "EOF while parsing a list"
  | .eofObject => "EOF while parsing an object"
  | .eofString => "EOF while parsing a string"
  | .eofValue => "EOF while parsing a value"
  | .expectedColon => "expected `:`"
  | .expectedListEnd => "expected `,` or `]`"
  | .expectedObjectEnd => "expected `,` or `\x7d`"
  | .expectedWord => "expected ident"
  | .expectedValue => "expected value"
  | .badEscape => "invalid escape"
  | .badNumber => "invalid number"
  | .outOfRange => "number out of range"
  | .controlCharacter => "control character (\\u0000-\\u001F) found while parsing a string"
  | .keyNotString => "key must be a string"
  | .loneSurrogate => "lone leading surrogate in hex escape"
  | .trailingComma => "trailing comma"
  | .trailingCharacters => "trailing characters"
  | .endOfHexEscape => "unexpected end of hex escape"
  | .tooDeep => "recursion limit exceeded"
  | .data message => message

/-- The family of a fault. -/
def FaultKind.family : FaultKind → FaultClass
  | .eofList | .eofObject | .eofString | .eofValue => .eof
  | .data _ => .data
  | _ => .malformed

/-- A fault and its place, which some faults get only from an enclosing value. -/
structure Fault where
  kind : FaultKind
  place : Option (Nat × Nat)
  deriving DecidableEq, Repr

/-- The text of a fault with its place. -/
def Fault.message (f : Fault) : String :=
  match f.place with
  | none => f.kind.message
  | some (line, column) =>
    f.kind.message ++ " at line " ++ Nat.repr line ++ " column " ++ Nat.repr column

/-- A place in a text: what is left, and the line and column reached. -/
structure Cursor where
  rest : List Char
  line : Nat
  column : Nat

namespace Cursor

/-- The beginning of a text. -/
def start (text : List Char) : Cursor := ⟨text, 1, 0⟩

/-- Passes one character. -/
def next (c : Cursor) : Cursor :=
  match c.rest with
  | [] => c
  | ch :: rest =>
    if ch = '\n' then ⟨rest, c.line + 1, 0⟩ else ⟨rest, c.line, c.column + ch.utf8Size⟩

/-- The place one byte on, where a fault is reported that lies ahead. -/
def placeAhead (c : Cursor) : Nat × Nat :=
  match c.rest with
  | [] => (c.line, c.column)
  | ch :: _ => if ch = '\n' then (c.line + 1, 0) else (c.line, c.column + 1)

/-- The place `n` bytes on. -/
def placeAfter (c : Cursor) : Nat → Nat × Nat
  | 0 => (c.line, c.column)
  | n + 1 =>
    match c.rest with
    | [] => (c.line, c.column)
    | ch :: rest =>
      if ch = '\n' then placeAfter ⟨rest, c.line + 1, 0⟩ n
      else if ch.utf8Size ≤ n + 1 then
        placeAfter ⟨rest, c.line, c.column + ch.utf8Size⟩ (n + 1 - ch.utf8Size)
      else (c.line, c.column + n + 1)
  termination_by n => n
  decreasing_by
    · omega
    · have := Char.utf8Size_pos ch; omega

/-- A fault at the place reached. -/
def fault {α : Type} (c : Cursor) (kind : FaultKind) : Except Fault (α × Cursor) :=
  .error ⟨kind, some (c.line, c.column)⟩

/-- A fault one byte ahead. -/
def faultAhead {α : Type} (c : Cursor) (kind : FaultKind) : Except Fault (α × Cursor) :=
  .error ⟨kind, some c.placeAhead⟩

/-- Whether a character is white space between tokens. -/
def isSpace (ch : Char) : Bool := ch == ' ' || ch == '\n' || ch == '\t' || ch == '\r'

/-- Passes white space. -/
def skipSpace (c : Cursor) : Cursor := go c.rest c.line c.column
where
  /-- The place after the white space at the front of `rest`. -/
  go : List Char → Nat → Nat → Cursor
    | ch :: rest, line, column =>
      if isSpace ch then
        if ch = '\n' then go rest (line + 1) 0 else go rest line (column + 1)
      else ⟨ch :: rest, line, column⟩
    | [], line, column => ⟨[], line, column⟩

/-- The next character. -/
def peek (c : Cursor) : Option Char := c.rest.head?

/-- Passes the characters of a word that began with a character already passed. -/
def word (c : Cursor) : List Char → Except Fault (Unit × Cursor)
  | [] => .ok ((), c)
  | w :: more =>
    match c.peek with
    | none => c.fault .eofValue
    | some ch => if ch = w then c.next.word more else c.next.fault .expectedWord

/-- The value of a hexadecimal digit. -/
def hexValue (ch : Char) : Option Nat :=
  let n := ch.toNat
  if 48 ≤ n && n ≤ 57 then some (n - 48)
  else if 97 ≤ n && n ≤ 102 then some (n - 87)
  else if 65 ≤ n && n ≤ 70 then some (n - 55)
  else none

/-- The value of hexadecimal digits. -/
def hexNumber : List Char → Option Nat
  | cs => cs.foldl (fun acc ch => do return (← acc) * 16 + (← hexValue ch)) (some 0)

/-- Reads four hexadecimal digits. -/
def hex4 (c : Cursor) : Except Fault (Nat × Cursor) :=
  match c.rest with
  | a :: b :: d :: e :: rest =>
    match hexNumber [a, b, d, e] with
    | some n => .ok (n, ⟨rest, c.line, c.column + 4⟩)
    | none => .error ⟨.badEscape, some (c.placeAfter 4)⟩
  | short =>
    if (String.ofList short).utf8ByteSize < 4 then
      .error ⟨.eofString, some (c.placeAfter 4)⟩
    else .error ⟨.badEscape, some (c.placeAfter 4)⟩

/-- The character that follows a backslash and stands for another one. -/
def simpleEscape (ch : Char) : Option Char :=
  match ch with
  | '"' => some '"'
  | '\\' => some '\\'
  | '/' => some '/'
  | 'b' => some '\x08'
  | 'f' => some '\x0c'
  | 'n' => some '\n'
  | 'r' => some '\r'
  | 't' => some '\t'
  | _ => none

/-- Reads the second half of a surrogate pair, of which `lead` is the first. -/
def trailEscape (c : Cursor) (lead : Nat) : Except Fault (Char × Cursor) :=
  match c.peek with
  | none => c.fault .eofString
  | some ch =>
    if ch != '\\' then .error ⟨.endOfHexEscape, some c.placeAhead⟩
    else
      let c := c.next
      match c.peek with
      | none => c.fault .eofString
      | some ch =>
        if ch != 'u' then .error ⟨.endOfHexEscape, some c.placeAhead⟩
        else do
          let (trail, c) ← c.next.hex4
          if trail < 0xDC00 || trail > 0xDFFF then c.fault .loneSurrogate
          else .ok (Char.ofNat (0x10000 + (lead - 0xD800) * 0x400 + (trail - 0xDC00)), c)

/-- Reads what follows a backslash. -/
def escape (c : Cursor) : Except Fault (Char × Cursor) :=
  match c.peek with
  | none => c.fault .eofString
  | some 'u' => do
    let (n, c) ← c.next.hex4
    if 0xDC00 ≤ n && n ≤ 0xDFFF then c.fault .loneSurrogate
    else if 0xD800 ≤ n && n ≤ 0xDBFF then c.trailEscape n
    else .ok (Char.ofNat n, c)
  | some ch =>
    match simpleEscape ch with
    | some e => .ok (e, c.next)
    | none => c.next.fault .badEscape

/-- Reads a string whose opening quote has been passed, `read` being its characters backwards. -/
def stringFrom (fuel : Nat) (c : Cursor) (read : List Char) : Except Fault (String × Cursor) :=
  match fuel with
  | 0 => c.fault .eofString
  | n + 1 =>
    match c.peek with
    | none => c.fault .eofString
    | some '"' => .ok (String.ofList read.reverse, c.next)
    | some '\\' => do
      let (ch, c) ← c.next.escape
      c.stringFrom n (ch :: read)
    | some ch =>
      if ch.toNat < 0x20 then c.next.fault .controlCharacter else c.next.stringFrom n (ch :: read)

/-- Reads a string whose opening quote has been passed. -/
def string (c : Cursor) : Except Fault (String × Cursor) := c.stringFrom (c.rest.length + 1) []

end Cursor
end LoadHook.Json
