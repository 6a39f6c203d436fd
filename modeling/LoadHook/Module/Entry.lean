import LoadHook.Hook.Handler
import LoadHook.Module.Host

/-!
# Entry points

What is done with a host from outside of all modules, in the realm that the host starts
with: running an entry module, reading its exports as JSON, forgetting it, and evaluating
code. A path is made absolute and normal first, so that every spelling of a file names
one module.
-/
namespace LoadHook

open Script (Value RealmRef Ref Eval)

/-! ## The console -/

/-- The functions of the console with the levels at which they write. -/
def consoleFunctions : List (String × Level) :=
  [("log", .info), ("info", .info), ("debug", .debug), ("warn", .warn), ("error", .error)]

/-- Adds the console to the global object of a realm. -/
def Script.Heap.addConsole (h : Script.Heap) (realm : RealmRef) : Script.Heap :=
  let r := h.realm realm
  let (console, h) := h.addPlain (some r.objectProto)
  let h := consoleFunctions.foldl (fun (h : Script.Heap) (f : String × Level) =>
    let (g, h) := h.addNative realm r.functionProto (.print f.2) f.1 0
    h.putOwn console (Script.key f.1) (.plain (.obj g))) h
  h.putOwn r.global (Script.key "console") (.plain (.obj console))

/-! ## Reading values -/

/-- What the value of code is read as. -/
inductive Form where
  | unit | int32 | bool | text | texts
  /-- A text, or undefined or null. -/
  | optionalText
  /-- The text of any value. -/
  | anyText
  deriving DecidableEq

namespace Form

/-- Refuses a value. -/
def refuse {α : Type} (v : Value) (target : String) : Load α := do
  Load.fail (.engine .type (← Load.read fun w => Script.conversionText w.heap v target))

/-- The number without its fraction in the range of 32 bits with sign, the nearest end of the
range standing for what lies outside. -/
def clamp (x : Float) : Int :=
  let n := if Decimal.isFinite x || x.isNaN then Script.Numeric.truncate x
    else if x < 0 then -Int.pow 2 31 else Int.pow 2 31
  max (-Int.pow 2 31) (min n (Int.pow 2 31 - 1))

/-- A value that must be a text. -/
def text? (v : Value) : Load String := do
  match ← Load.read fun w => Script.textOf w.heap v with
  | .ok s => return s
  | .error message => Load.fail (.engine .type message)

/-- The elements of an array, which must be texts. -/
def texts? (realm : RealmRef) (v : Value) : List Nat → Load (List Json)
  | [] => pure []
  | i :: rest => do
    let item ← Load.script (Script.standardMachine.get realm v (Script.natKey i))
    let s ← text? item
    return .str s :: (← texts? realm v rest)

/-- Reads a value. -/
def read (form : Form) (realm : RealmRef) (v : Value) : Load Json := do
  match form with
  | .unit => return .null
  | .int32 =>
    match v with
    | .num x => return .int (clamp x)
    | v => refuse v "i32"
  | .bool =>
    match v with
    | .bool b => return .bool b
    | v => refuse v "bool"
  | .text => return .str (← text? v)
  | .texts =>
    if ← Load.read fun w => v.ref?.any fun r => (w.heap.object r).isArray then
      let n ← Load.script (Script.standardMachine.lengthOf realm v)
      return .arr (← texts? realm v (List.range n))
    else refuse v "array"
  | .optionalText => if v.isPresent then return .str (← text? v) else return .null
  | .anyText =>
    match Text.Utf16.toString? (← Load.script (Script.standardMachine.toText realm v)) with
    | .ok s => return .str s
    | .error place => Load.fail (.engine .type (Script.brokenText place))

end Form

/-! ## Hosts -/

namespace Host

/-- The realm that a host starts with. -/
def homeRealm : RealmRef := 0

/-- A host without modules in a world. -/
def start (w : World) : Host :=
  let (realm, heap) := Script.Heap.empty.addRealm
  ⟨.initial, ⟨w, heap.addConsole realm, #[]⟩⟩

/-- Registers a handler for an extension. -/
def register (h : Host) (extension : String) (f : Handler) : Host :=
  { h with registry := h.registry.register extension f }

/-- Adds a hook and gives its number. -/
def addHook (h : Host) (k : Hook) : Nat × Host :=
  (h.workspace.hooks.size,
    { h with workspace := { h.workspace with hooks := h.workspace.hooks.push k } })

/-- Changes the world around a host. -/
def withWorld (h : Host) (w : World) : Host :=
  { h with workspace := { h.workspace with world := w } }

/-- A path as modules are registered under it: absolute and normal. -/
def absolute (t : FileTree) (p : Path) : Except Cause Path :=
  if p.chars.isEmpty then .error .emptyPath
  else if p.isAbsolute then .ok p.normalize
  else .ok (FileTree.pathOf t.cwd / p).normalize

/-- Turns a failure into the error that it is outside of scripts. -/
def conclude {α : Type} (r : Except Failure α × Host) : Except LoadError α × Host :=
  match r with
  | (.ok a, h) => (.ok a, h)
  | (.error e, h) =>
    match h.perform answer (Load.caught homeRealm e) with
    | (.ok e, h) => (.error e, h)
    | (.error _, h) => (.error (.exception "" none), h)

/-- Loads the module of an absolute path. -/
def enter (p : Path) (h : Host) : Except LoadError Ref × Host := conclude (load homeRealm p h)

/-- Loads a module as an entry. -/
def runMain (p : Path) (h : Host) : Except LoadError Unit × Host :=
  match absolute h.workspace.world.tree p with
  | .error cause => (.error (.unreadable p cause), h)
  | .ok p =>
    let (r, h) := enter p h
    (r.map fun _ => (), h)

/-- The JSON text that the exports of a module show, if they show anything. -/
def exportsText (module : Ref) : Load (Option String) := do
  let v ← Load.exports homeRealm module
  let d ← Load.script (Script.BuiltIn.documentOf Script.standardMachine homeRealm v)
  return d.map fun d => Text.Utf16.toString (d.print [] [])

/-- The JSON that a text of exports is read as, null for none. -/
def readExports : Option String → Except LoadError Json
  | none => .ok .null
  | some text => (Json.parse text).mapError fun fault => .malformed fault.message

/-- Loads a module and reads its exports as JSON. -/
def loadExports (p : Path) (h : Host) : Except LoadError Json × Host :=
  match absolute h.workspace.world.tree p with
  | .error cause => (.error (.unreadable p cause), h)
  | .ok p =>
    match enter p h with
    | (.error e, h) => (.error e, h)
    | (.ok module, h) =>
      let (text, h) := conclude (h.perform answer (exportsText module))
      (text.bind readExports, h)

/-- Forgets a module; tells whether it was registered. -/
def evict (p : Path) (h : Host) : Bool × Host :=
  match absolute h.workspace.world.tree p with
  | .error _ => (false, h)
  | .ok p => (h.registry.isLoaded p, { h with registry := h.registry.erase p })

/-- Forgets all modules. -/
def clear (h : Host) : Host := { h with registry := h.registry.clear }

/-- The value of code in the home realm, in strict mode. -/
def evaluate (code : String) (form : Form) : Load Json := do
  let code ← Load.withoutNul code
  let v ← Load.script (Script.runText homeRealm true code)
  form.read homeRealm v

/-- Evaluates code and reads its value. -/
def execute (code : String) (form : Form) (h : Host) : Except LoadError Json × Host :=
  conclude (h.perform answer (evaluate code form))

end Host
end LoadHook
