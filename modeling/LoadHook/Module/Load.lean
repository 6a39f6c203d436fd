import LoadHook.Hook.Basic
import LoadHook.Module.Error
import LoadHook.Script.Evaluation

/-!
# Steps of loading a module

A step of a load works on the world, on the heap of the scripts and on the hooks, and may
ask for other modules. What has been loaded already it neither sees nor changes: that is
the business of whoever answers. So `Load` is a dialogue that asks for modules.
-/
namespace LoadHook

open Script (Value RealmRef Ref Heap Eval)

/-- What the steps of a load work on. -/
structure Workspace where
  world : World
  heap : Heap
  hooks : Array Hook

/-- A module that is asked for: its specifier, the directory it is taken from, and the realm of
the code that asks. -/
structure Requirement where
  specifier : String
  dir : Path
  realm : RealmRef
  deriving DecidableEq

/-- A dialogue about modules. The answer to a requirement is the exports of the module, or a
value that is thrown. -/
abbrev Talk (α : Type) := Dialogue Requirement (Except Value Value) Workspace α

/-- A step of a load. -/
def Load (α : Type) := Workspace → Talk (Except Failure α × Workspace)

namespace Load

variable {α β : Type}

/-- A value at once. -/
def pure (a : α) : Load α := fun w => .done (.ok a, w)

/-- One step after another. -/
def bind (x : Load α) (f : α → Load β) : Load β := fun w =>
  (x w).bind fun r =>
    match r.1 with
    | .ok a => f a r.2
    | .error e => .done (.error e, r.2)

instance : Monad Load where
  pure := Load.pure
  bind := Load.bind

/-- Fails. -/
def fail (e : LoadError) : Load α := fun w => .done (.error (.error e), w)

/-- What the workspace tells. -/
def read (f : Workspace → α) : Load α := fun w => .done (.ok (f w), w)

/-- Changes the workspace. -/
def change (f : Workspace → Workspace) : Load Unit := fun w => .done (.ok (), f w)

/-- The result of a step, whether it is a value or not. -/
def outcome (x : Load α) : Load (Except Failure α) := fun w =>
  (x w).bind fun r => .done (.ok r.1, r.2)

/-- Writes to the log. -/
def report (level : Level) (source : Source) (text : String) : Load Unit :=
  change fun w => { w with world := w.world.report level source text }

/-- Why a script that has ended so has no value. -/
def failureOf : Script.Abrupt → Failure
  | .thrown v => .thrown v
  | .overflow | .absent => .error (.engine .range "Maximum call stack size exceeded")

/-- Goes on with a running script. Lines that it writes go to the log; modules that it asks for
are asked for. -/
def ofRun (w : Workspace) : Script.Run (Except Script.Abrupt α × Heap) →
    Talk (Except Failure α × Workspace)
  | .done (r, h) => .done (r.mapError failureOf, { w with heap := h })
  | .ask (.print level text) h next =>
    ofRun { w with heap := h, world := w.world.report level .console text }
      (next (.ok .undefined) h)
  | .ask (.require specifier dir realm) h next =>
    .ask ⟨specifier, dir, realm⟩ { w with heap := h } fun answer w =>
      ofRun w (next answer w.heap)

/-- A script as a step. -/
def script (x : Eval α) : Load α := fun w => ofRun w (x w.heap)

/-! ## Thrown values -/

/-- The text of an optional part of a thrown error. -/
def errorPart (realm : RealmRef) (r : Ref) (name : String) : Eval (Option String) := do
  let part : Eval (Option Text.Utf16) := do
    match ← Script.standardMachine.getRef realm r (Script.key name) with
    | .undefined | .null => return none
    | v => return some (← Script.standardMachine.toText realm v)
  match ← Eval.outcome part with
  | .ok (some s) => return (Text.Utf16.toString? s).toOption
  | _ => return none

/-- What is left of a thrown value outside of scripts. -/
def describe (realm : RealmRef) (v : Value) : Eval LoadError := do
  let isError ← Eval.read fun h => match v with
    | .obj r => match (h.object r).kind with
      | .error => some r
      | _ => none
    | _ => none
  match isError with
  | some r =>
    let message ← errorPart realm r "message"
    return .exception (message.getD "") (← errorPart realm r "stack")
  | none =>
    match ← Eval.outcome (Script.standardMachine.toText realm v) with
    | .ok s => return .exception ((Text.Utf16.toString? s).toOption.getD "") none
    | .error _ => return .exception "" none

/-- The error that a failure is outside of scripts. -/
def caught (realm : RealmRef) : Failure → Load LoadError
  | .thrown v => script (describe realm v)
  | .error e => pure e

/-- The value that a failure is inside of scripts. -/
def throwable (realm : RealmRef) : Failure → Load Value
  | .thrown v => pure v
  | .error (.engine kind text) => script (Script.makeError realm kind text)
  | .error e => script (Script.hostError realm e.message)

/-! ## Module objects -/

/-- A property of an object for code of a realm. -/
def property (realm : RealmRef) (r : Ref) (name : String) : Load Value :=
  script (Script.standardMachine.getRef realm r (Script.key name))

/-- Sets a property of an object; it is an error if it cannot be set. -/
def setProperty (realm : RealmRef) (r : Ref) (name : String) (v : Value) : Load Unit :=
  script (Script.standardMachine.assign realm true (.obj r) (Script.key name) v)

/-- A property that must be a text. -/
def textProperty (realm : RealmRef) (r : Ref) (name : String) : Load String := do
  let v ← property realm r name
  match ← read fun w => Script.textOf w.heap v with
  | .ok text => return text
  | .error text => fail (.engine .type text)

/-- The file of a module. -/
def filename (realm : RealmRef) (module : Ref) : Load Path := do
  return Path.ofString (← textProperty realm module "filename")

/-- The directory of the file of a module. -/
def dirname (realm : RealmRef) (module : Ref) : Load Path := do
  return (← filename realm module).parent.getD ""

/-- The exports of a module. -/
def exports (realm : RealmRef) (module : Ref) : Load Value := property realm module "exports"

/-- Replaces the exports of a module. -/
def setExports (realm : RealmRef) (module : Ref) (v : Value) : Load Unit :=
  setProperty realm module "exports" v

/-- The text of a file. -/
def readFile (p : Path) : Load String := do
  match ← read fun w => w.world.tree.readText p with
  | .ok text => return text
  | .error cause => fail (.unreadable p cause)

/-- What is said of a text that holds a NUL, with its place in bytes. -/
def nulText (place : Nat) : String :=
  "String contained internal null bytes: nul byte found in provided data at position: " ++
    Nat.repr place

/-- Refuses a text that holds a NUL. -/
def withoutNul (text : String) : Load String :=
  let before := text.toList.takeWhile (· != '\x00')
  if before.length < text.length then
    fail (.engine .type (nulText (FileTree.byteLength before)))
  else pure text

end Load

/-- Loads one kind of file: fills the exports of a module for code of a realm. -/
abbrev Handler := RealmRef → Ref → Load Unit

end LoadHook
