import LoadHook.Json.Reader
import LoadHook.Module.Registry

/-!
# Modules given as steps

A module without any script: its file is a JSON list of steps, each of which sets
something in the exports or asks for another module. Modules are asked for through the
module's own `require`, as a script does.
-/
namespace LoadHook

open Script (Value RealmRef Ref Eval)

/-- A step of a module. -/
inductive ModuleStep where
  /-- Sets a member of the exports. -/
  | set (name : String) (value : Json)
  /-- Replaces the exports. -/
  | replace (value : Json)
  /-- Sets a member to the exports of a module. -/
  | require (specifier name : String)
  /-- Replaces the exports by those of a module. -/
  | adopt (specifier : String)
  /-- Sets a member to a copy of the data in the exports of a module. -/
  | snapshot (specifier name : String)
  /-- Sets a member to whether two modules have the identical exports. -/
  | same (first second name : String)
  /-- Sets a member to how asking for a module ends. -/
  | try (specifier name : String)
  /-- Sets a member to what the module says of itself. -/
  | info (name : String)
  | throw (message : String)
  /-- Fails as if a module had not been found. -/
  | fail (specifier dir : String)

namespace ModuleStep

/-- The step that a JSON list describes: a word and its operands. -/
def ofJson? (j : Json) : Option ModuleStep :=
  match j with
  | .arr (.str word :: operands) =>
    match word, operands with
    | "set", [.str name, value] => some (.set name value)
    | "exports", [value] => some (.replace value)
    | "require", [.str specifier, .str name] => some (.require specifier name)
    | "adopt", [.str specifier] => some (.adopt specifier)
    | "snap", [.str specifier, .str name] => some (.snapshot specifier name)
    | "same", [.str first, .str second, .str name] => some (.same first second name)
    | "try", [.str specifier, .str name] => some (.try specifier name)
    | "info", [.str name] => some (.info name)
    | "throw", [.str message] => some (.throw message)
    | "fail", [.str specifier, .str dir] => some (.fail specifier dir)
    | _, _ => none
  | _ => none

variable (realm : RealmRef) (module : Ref)

/-- What is said when a member is set in something that has no members. -/
def noObjectText : String := "QuickJS library created a unknown error"

/-- Sets a member of the exports. -/
def put (name : String) (v : Value) : Load Unit := do
  match ← Load.exports realm module with
  | .obj r => Load.setProperty realm r name v
  | _ => Load.fail (.engine .internal noObjectText)

/-- The value of data. -/
def valueOf (j : Json) : Load Value :=
  Load.script (Script.BuiltIn.parseJson realm (Script.key j.compact))

/-- The exports of a module that is asked for through `require`. -/
def ask (specifier : String) : Load Value := do
  let f ← Sandbox.requireOf realm module
  Load.script (Script.standardMachine.call realm f .undefined [.text specifier])

/-- A copy of the data that a value shows, null if it shows none. -/
def copy (v : Value) : Load Value :=
  Load.script do
    match ← Script.BuiltIn.documentOf Script.standardMachine realm v with
    | some d => Script.BuiltIn.parseJson realm (d.print [] [])
    | none => return .null

/-- What the module says of itself. -/
def about : Load Value := do
  let id ← Load.textProperty realm module "id"
  let file ← Load.textProperty realm module "filename"
  let dir ← Load.dirname realm module
  let loaded ← Load.property realm module "loaded"
  Load.script (Script.newObject realm
    [(Script.key "id", .text id), (Script.key "filename", .text file),
     (Script.key "dirname", .text dir.text), (Script.key "loaded", loaded)])

/-- Does a step. -/
def run (step : ModuleStep) : Load Unit := do
  match step with
  | .set name value => put realm module name (← valueOf realm value)
  | .replace value => Load.setExports realm module (← valueOf realm value)
  | .require specifier name => put realm module name (← ask realm module specifier)
  | .adopt specifier => Load.setExports realm module (← ask realm module specifier)
  | .snapshot specifier name =>
    put realm module name (← copy realm (← ask realm module specifier))
  | .same first second name =>
    let a ← ask realm module first
    let b ← ask realm module second
    put realm module name (.bool (a.identical b))
  | .try specifier name =>
    let text ← match ← Load.outcome (ask realm module specifier) with
      | .ok _ => pure "ok"
      | .error failure => do pure (← Load.caught realm failure).message
    put realm module name (.text text)
  | .info name => put realm module name (← about realm module)
  | .throw message =>
    Load.script do Eval.throw (← Script.hostError realm message)
  | .fail specifier dir => Load.fail (.moduleNotFound specifier (Path.ofString dir))

/-- Does steps in order. -/
def runAll : List ModuleStep → Load Unit
  | [] => pure ()
  | step :: rest => do
    run realm module step
    runAll rest

end ModuleStep

/-- Loads modules that are given as steps. -/
def Handler.steps : Handler := fun realm module => do
  let file ← Load.filename realm module
  let text ← Load.readFile file
  match Json.parse text with
  | .error fault => Load.fail (.malformed fault.message)
  | .ok j => ModuleStep.runAll realm module ((j.arr?.getD []).filterMap ModuleStep.ofJson?)

end LoadHook
