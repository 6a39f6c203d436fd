import LoadHook.Json.Number

/-!
# Reading JSON text

`Json.parse` reads a whole document. Arrays and objects may be nested 127 deep. In an
object a later member replaces an earlier one of the same name.
-/
namespace LoadHook.Json

namespace Cursor

/-- How the next element of a list or object is announced. -/
inductive Turn where
  | item
  | stop

/-- Looks for the next item of a list: passes the comma before it, if it is not the first. -/
def nextItem (c : Cursor) (first : Bool) : Except Fault (Turn × Cursor) :=
  let c := c.skipSpace
  match c.peek with
  | none => c.faultAhead .eofList
  | some ']' => .ok (.stop, c)
  | some ch =>
    if first then .ok (.item, c)
    else if ch = ',' then
      let c := c.next.skipSpace
      match c.peek with
      | none => c.faultAhead .eofValue
      | some ']' => c.faultAhead .trailingComma
      | some _ => .ok (.item, c)
    else c.faultAhead .expectedListEnd

/-- Looks for the next name in an object and passes its opening quote. -/
def nextName (c : Cursor) (first : Bool) : Except Fault (Turn × Cursor) :=
  let c := c.skipSpace
  let name (c : Cursor) : Except Fault (Turn × Cursor) :=
    match c.peek with
    | some '"' => .ok (.item, c.next)
    | some '}' => c.faultAhead .trailingComma
    | some _ => c.faultAhead .keyNotString
    | none => c.faultAhead .eofValue
  match c.peek with
  | none => c.faultAhead .eofObject
  | some '}' => .ok (.stop, c)
  | some ch =>
    if first then name c
    else if ch = ',' then name c.next.skipSpace
    else c.faultAhead .expectedObjectEnd

/-- Passes the colon after a name. -/
def colon (c : Cursor) : Except Fault (Unit × Cursor) :=
  let c := c.skipSpace
  match c.peek with
  | some ':' => .ok ((), c.next)
  | some _ => c.faultAhead .expectedColon
  | none => c.faultAhead .eofObject

/-- Passes the end of a list, or says why it is not there. -/
def listEnd (c : Cursor) : Except Fault (Unit × Cursor) :=
  let c := c.skipSpace
  match c.peek with
  | some ']' => .ok ((), c.next)
  | some ',' =>
    let c := c.next.skipSpace
    if c.peek == some ']' then c.faultAhead .trailingComma else c.faultAhead .trailingCharacters
  | some _ => c.faultAhead .trailingCharacters
  | none => c.faultAhead .eofList

/-- Passes the end of an object, or says why it is not there. -/
def objectEnd (c : Cursor) : Except Fault (Unit × Cursor) :=
  let c := c.skipSpace
  match c.peek with
  | some '}' => .ok ((), c.next)
  | some ',' => c.faultAhead .trailingComma
  | some _ => c.faultAhead .trailingCharacters
  | none => c.faultAhead .eofObject

mutual

/-- Reads a value that may hold arrays and objects nested `depth` deep. -/
def value (fuel depth : Nat) (c : Cursor) : Except Fault (Json × Cursor) :=
  match fuel with
  | 0 => c.fault .tooDeep
  | n + 1 =>
    let c := c.skipSpace
    match c.peek with
    | none => c.faultAhead .eofValue
    | some 'n' => do
      let ((), c) ← c.next.word ['u', 'l', 'l']
      return (.null, c)
    | some 't' => do
      let ((), c) ← c.next.word ['r', 'u', 'e']
      return (.bool true, c)
    | some 'f' => do
      let ((), c) ← c.next.word ['a', 'l', 's', 'e']
      return (.bool false, c)
    | some '-' => c.next.number true
    | some '"' => do
      let (s, c) ← c.next.string
      return (.str s, c)
    | some '[' =>
      match depth with
      | 0 => c.faultAhead .tooDeep
      | d + 1 => do
        let (items, c) ← items n d c.next true
        return (.arr items, c)
    | some '{' =>
      match depth with
      | 0 => c.faultAhead .tooDeep
      | d + 1 => do
        let (members, c) ← members n d c.next true
        return (ofMembers members, c)
    | some ch => if ch.isDigit then c.number false else c.faultAhead .expectedValue

/-- Reads the items of a list and its end. -/
def items (fuel depth : Nat) (c : Cursor) (first : Bool) : Except Fault (List Json × Cursor) :=
  match fuel with
  | 0 => c.fault .tooDeep
  | n + 1 => do
    match ← c.nextItem first with
    | (.stop, c) =>
      let ((), c) ← c.listEnd
      return ([], c)
    | (.item, c) =>
      let (j, c) ← value n depth c
      let (rest, c) ← items n depth c false
      return (j :: rest, c)

/-- Reads the members of an object and its end. -/
def members (fuel depth : Nat) (c : Cursor) (first : Bool) :
    Except Fault (List (String × Json) × Cursor) :=
  match fuel with
  | 0 => c.fault .tooDeep
  | n + 1 => do
    match ← c.nextName first with
    | (.stop, c) =>
      let ((), c) ← c.objectEnd
      return ([], c)
    | (.item, c) =>
      let (name, c) ← c.string
      let ((), c) ← c.colon
      let (j, c) ← value n depth c
      let (rest, c) ← members n depth c false
      return ((name, j) :: rest, c)

end

/-- Nothing but white space may follow. -/
def finish {α : Type} (r : Except Fault (α × Cursor)) : Except Fault α := do
  let (a, c) ← r
  let c := c.skipSpace
  match c.peek with
  | none => .ok a
  | some _ => .error ⟨.trailingCharacters, some c.placeAhead⟩

end Cursor

/-- How deep arrays and objects may be nested. -/
def depthLimit : Nat := 127

/-- Reads a text as one document. -/
def parse (text : String) : Except Fault Json :=
  let cs := text.toList
  Cursor.finish (Cursor.value (2 * cs.length + 2) depthLimit (Cursor.start cs))

end LoadHook.Json
