import LoadHook.Module.Registry
import LoadHook.Module.Resolution

/-!
# Loading modules

A module is registered before its handler runs, so that modules which ask for each other
see what the other has exported so far; if the handler fails the module is removed again.
A module that is registered is given back without running anything. Whatever a load asks
for is answered by a load that is nested inside it.
-/
namespace LoadHook

open Script (Value RealmRef Ref)

/-- The registry, and what loads work on. -/
structure Host where
  registry : Registry
  workspace : Workspace

namespace Host

variable {α : Type}

/-- Answers a requirement. -/
abbrev Answerer := Requirement → Host → Except Value Value × Host

/-- Runs a step of a load, its requirements being answered. -/
def perform (answer : Answerer) (x : Load α) (h : Host) : Except Failure α × Host :=
  let ((r, w), g) := (x h.workspace).run (fun q w g =>
    let (a, h) := answer q ⟨g, w⟩
    (a, h.workspace, h.registry)) h.registry
  (r, ⟨g, w⟩)

/-- Where a specifier leads. -/
def resolve (h : Host) (specifier : String) (dir : Path) : Except LoadError Path :=
  match Resolution.resolve h.workspace.world.tree h.registry.extensions specifier dir with
  | some p => .ok p
  | none => .error (.moduleNotFound specifier dir)

/-- Makes the object of a module, whose `require` starts from the directory of its file. -/
def newModule (realm : RealmRef) (p : Path) : Load Ref := do
  let require ← Load.script (Script.Eval.update fun h =>
    h.addNative realm (h.realm realm).functionProto (.require (p.parent.getD "")) "require" 1)
  let r ← Load.script (Script.Eval.update fun h => h.addPlain (some (h.realm realm).objectProto))
  Load.setProperty realm r "id" (.text p.text)
  Load.setProperty realm r "filename" (.text p.text)
  Load.setProperty realm r "loaded" (.bool false)
  Load.setProperty realm r "exports" (← Load.script (Script.newObject realm []))
  Load.setProperty realm r "require" (.obj require)
  return r

/-- Runs the handler of a registered module and marks the module as loaded. If the handler fails
the module is removed. -/
def populate (answer : Answerer) (realm : RealmRef) (p : Path) (module : Ref) (h : Host) :
    Except Failure Ref × Host :=
  match h.perform answer (h.registry.handlerFor p realm module) with
  | (.error e, h) => (.error e, { h with registry := h.registry.erase p })
  | (.ok (), h) =>
    match h.perform answer (Load.setProperty realm module "loaded" (.bool true)) with
    | (.error e, h) => (.error e, h)
    | (.ok (), h) => (.ok module, h)

/-- Loads a module that is not registered. -/
def loadNew (answer : Answerer) (realm : RealmRef) (p : Path) (h : Host) :
    Except Failure Ref × Host :=
  match h.perform answer (newModule realm p) with
  | (.error e, h) => (.error e, h)
  | (.ok module, h) =>
    populate answer realm p module { h with registry := h.registry.insert p module }

/-- Loads modules for code of a realm. -/
abbrev Loader := RealmRef → Path → Host → Except Failure Ref × Host

/-- The exports of the module that is asked for. -/
def requireWith (load : Loader) (answer : Answerer) (q : Requirement) (h : Host) :
    Except Failure Value × Host :=
  match h.resolve q.specifier q.dir with
  | .error e => (.error (.error e), h)
  | .ok p =>
    match load q.realm p h with
    | (.error e, h) => (.error e, h)
    | (.ok module, h) => h.perform answer (Load.exports q.realm module)

/-- Answers a requirement with the exports of a module, or with a thrown error. -/
def answerWith (load : Loader) (answer : Answerer) : Answerer := fun q h =>
  match requireWith load answer q h with
  | (.ok v, h) => (.ok v, h)
  | (.error e, h) =>
    match h.perform answer (Load.throwable q.realm e) with
    | (.ok v, h) => (.error v, h)
    | (.error _, h) => (.error .undefined, h)

/-- The answer where loads are nested too deep. -/
def refuse : Answerer := fun _ h => (.error .undefined, h)

mutual

/-- Loads the module of a path, at most `depth` loads deep: gives it back if it is registered,
else makes and fills it. -/
def loadWithin (depth : Nat) (realm : RealmRef) (p : Path) (h : Host) : Except Failure Ref × Host :=
  match h.registry.modules.get? p with
  | some module => (.ok module, h)
  | none =>
    match depth with
    | 0 => (.error (.error (.engine .range "Maximum call stack size exceeded")), h)
    | n + 1 => loadNew (answerWithin n) realm p h

/-- Answers a requirement by a load at most `depth` loads deep. -/
def answerWithin (depth : Nat) : Answerer := fun q h =>
  match depth with
  | 0 => refuse q h
  | n + 1 => answerWith (loadWithin n) (answerWithin n) q h

end

/-- How deep loads may be nested. The engine refuses a load where its stack is full; it sets no
number, and this one stands for the size of the stack. A load takes two levels, one for itself and
one for the answer that it is part of. -/
def depthLimit : Nat := 2000

/-- Loads the module of a path. -/
def load (realm : RealmRef) (p : Path) (h : Host) : Except Failure Ref × Host :=
  loadWithin depthLimit realm p h

/-- Answers a requirement that is not part of a load. -/
def answer : Answerer := answerWithin depthLimit

end Host
end LoadHook
