import LoadHook.Json.Skip
import LoadHook.Settings.Basic
import LoadHook.Text.Quoted

/-!
# Reading settings

Settings are written as an object with the fields in any order, unknown members being
passed over, or as a list of the four fields in their order. In an object `compiler` may
be left out. A value of the wrong type is named in the fault.
-/
namespace LoadHook.Settings

open Json (Fault FaultKind Cursor)

/-- Names the type of the next value, which is not what was expected. -/
def wrongType {α : Type} (c : Cursor) (expected : String) : Except Fault (α × Cursor) := do
  let wrong (found : String) (c : Cursor) : Except Fault (α × Cursor) :=
    c.fault (.data ("invalid type: " ++ found ++ ", expected " ++ expected))
  match c.peek with
  | some '[' => wrong "sequence" c
  | some '{' => wrong "map" c
  | _ =>
    let (j, c) ← c.value 1 0
    match j with
    | .null => wrong "null" c
    | .bool b => wrong ("boolean `" ++ (if b then "true" else "false") ++ "`") c
    | .int n => wrong ("integer `" ++ String.ofList (Decimal.intChars n) ++ "`") c
    | .real x =>
      wrong ("floating point `" ++ String.ofList (Json.numberStyle.writeFloat x) ++ "`") c
    | .str s => wrong ("string " ++ Text.quoted s) c
    | .arr _ => wrong "sequence" c
    | .obj _ => wrong "map" c

/-- Reads a text where one is expected. -/
def readText (c : Cursor) (expected : String) : Except Fault (String × Cursor) :=
  let c := c.skipSpace
  match c.peek with
  | none => c.faultAhead .eofValue
  | some '"' => c.next.string
  | some _ => wrongType c expected

/-- Reads the rest of a list of at most `fuel` texts. -/
def readTexts (fuel : Nat) (c : Cursor) (first : Bool) : Except Fault (List String × Cursor) :=
  match fuel with
  | 0 => c.fault .tooDeep
  | n + 1 => do
    match ← c.nextItem first with
    | (.stop, c) =>
      let ((), c) ← c.listEnd
      return ([], c)
    | (.item, c) =>
      let (s, c) ← readText c "a string"
      let (rest, c) ← readTexts n c false
      return (s :: rest, c)

/-- A field of the settings. -/
inductive Field where
  | configFileName | extensions | compiler | debugVar
  deriving DecidableEq

namespace Field

/-- The fields in their order. -/
def all : List Field := [.configFileName, .extensions, .compiler, .debugVar]

/-- The name of a field. -/
def name : Field → String
  | .configFileName => "config_file_name"
  | .extensions => "extensions"
  | .compiler => "compiler"
  | .debugVar => "debug_var"

/-- The field of a name. -/
def ofName? (s : String) : Option Field := all.find? fun f => f.name == s

end Field

/-- The fields read so far. -/
structure Draft where
  configFileName : Option String
  extensions : Option (List String)
  compiler : Option (Option Path)
  debugVar : Option String

namespace Draft

/-- No field has been read. -/
def empty : Draft := ⟨none, none, none, none⟩

/-- Whether a field has been read. -/
def has (d : Draft) : Field → Bool
  | .configFileName => d.configFileName.isSome
  | .extensions => d.extensions.isSome
  | .compiler => d.compiler.isSome
  | .debugVar => d.debugVar.isSome

/-- Reads the value of a field. -/
def read (d : Draft) (c : Cursor) : Field → Except Fault (Draft × Cursor)
  | .configFileName => do
    let (s, c) ← readText c "a string"
    return ({ d with configFileName := some s }, c)
  | .extensions => do
    let c := c.skipSpace
    match c.peek with
    | none => c.faultAhead .eofValue
    | some '[' =>
      let (texts, c) ← readTexts (c.rest.length + 1) c.next true
      return ({ d with extensions := some texts }, c)
    | some _ => wrongType c "a sequence"
  | .compiler => do
    let c := c.skipSpace
    match c.peek with
    | some 'n' =>
      let ((), c) ← c.next.word ['u', 'l', 'l']
      return ({ d with compiler := some none }, c)
    | _ =>
      let (s, c) ← readText c "path string"
      return ({ d with compiler := some (some (Path.ofString s)) }, c)
  | .debugVar => do
    let (s, c) ← readText c "a string"
    return ({ d with debugVar := some s }, c)

/-- The settings, or the first field that is missing. -/
def finish (d : Draft) : Except Field Settings := do
  let some name := d.configFileName | throw .configFileName
  let some extensions := d.extensions | throw .extensions
  let some debugVar := d.debugVar | throw .debugVar
  return ⟨name, extensions, d.compiler.getD none, debugVar⟩

end Draft

/-- Where an object or list has been left: past its end, if it comes next. -/
def leave (c : Cursor) (close : Char) : Cursor :=
  let c := c.skipSpace
  if c.peek == some close then c.next else c

/-- Reads the rest of an object of at most `fuel` members. -/
def readMembers (fuel : Nat) (d : Draft) (c : Cursor) (first : Bool) :
    Except Fault (Settings × Cursor) :=
  match fuel with
  | 0 => c.fault .tooDeep
  | n + 1 => do
    match ← c.nextName first with
    | (.stop, c) =>
      let ((), c) ← c.objectEnd
      match d.finish with
      | .ok s => return (s, c)
      | .error field => c.fault (.data ("missing field `" ++ field.name ++ "`"))
    | (.item, c) =>
      let (name, c) ← c.string
      match Field.ofName? name with
      | none =>
        let ((), c) ← c.colon
        let ((), c) ← c.skip
        readMembers n d c false
      | some field =>
        if d.has field then
          (leave c '}').fault (.data ("duplicate field `" ++ field.name ++ "`"))
        else
          let ((), c) ← c.colon
          let (d, c) ← d.read c field
          readMembers n d c false

/-- Reads the fields of a list one after the other, `index` of them having been read. -/
def readItems (d : Draft) (c : Cursor) (index : Nat) : List Field → Except Fault (Draft × Cursor)
  | [] => .ok (d, c)
  | field :: rest => do
    match ← c.nextItem (index == 0) with
    | (.stop, c) =>
      (leave c ']').fault (.data ("invalid length " ++ Nat.repr index ++
        ", expected struct HookSettings with 4 elements"))
    | (.item, c) =>
      let (d, c) ← d.read c field
      readItems d c (index + 1) rest

/-- Reads settings. -/
def readValue (c : Cursor) : Except Fault (Settings × Cursor) := do
  let c := c.skipSpace
  match c.peek with
  | none => c.faultAhead .eofValue
  | some '{' => readMembers (c.rest.length + 1) .empty c.next true
  | some '[' =>
    let (d, c) ← readItems .empty c.next 0 Field.all
    let ((), c) ← c.listEnd
    match d.finish with
    | .ok s => return (s, c)
    | .error field => c.fault (.data ("missing field `" ++ field.name ++ "`"))
  | some _ => wrongType c "struct HookSettings"

/-- Reads a text as settings. -/
def parse (text : String) : Except Fault Settings :=
  Cursor.finish (readValue (Cursor.start text.toList))

end LoadHook.Settings
