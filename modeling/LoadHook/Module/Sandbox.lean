import LoadHook.Module.Load

/-!
# The sandbox

The text of a module runs in a realm of its own. The realm's global object gets a copy of
what the calling realm shows in its own, and then the bindings of the module, so that
assigning to a global name inside the module changes nothing outside.
-/
namespace LoadHook.Sandbox

open Script (Value RealmRef Ref Key Eval)

/-- The global object of a realm. -/
def globalOf (realm : RealmRef) : Eval Ref := Eval.read fun h => (h.realm realm).global

/-- The keys that an object shows. -/
def shownKeys (r : Ref) : Eval (List Key) :=
  Eval.read fun h =>
    let o := h.object r
    o.ownKeys.filter fun k => ((o.own k).map Script.Property.enumerable).getD false

/-- Copies the property of a key between the global objects of two realms. -/
def copyKey (source target : RealmRef) (k : Key) : Load Unit := do
  match Text.Utf16.toString? k with
  | .error place => Load.fail (.engine .type (Script.brokenText place))
  | .ok _ =>
    Load.script do
      let v ← Script.standardMachine.getRef source (← globalOf source) k
      Script.standardMachine.assign target true (.obj (← globalOf target)) k v

/-- Copies properties one after another. -/
def copyKeys (source target : RealmRef) : List Key → Load Unit
  | [] => pure ()
  | k :: rest => do
    copyKey source target k
    copyKeys source target rest

/-- The `require` of a module, which must be a function. -/
def requireOf (realm : RealmRef) (module : Ref) : Load Value := do
  let v ← Load.property realm module "require"
  if ← Load.read fun w => w.heap.callable v then return v
  else
    Load.fail (.engine .type
      (← Load.read fun w => Script.conversionText w.heap v "function"))

/-- Binds a name in the global object of a realm. -/
def bindName (realm : RealmRef) (name : String) (v : Value) : Load Unit := do
  Load.setProperty realm (← Load.script (globalOf realm)) name v

/-- Binds the names that a module finds around it: what is its own, the file that is run, and
the directory of the file that it was loaded from. -/
def bindModule (caller realm : RealmRef) (output : Path) (module : Ref) : Load Unit := do
  bindName realm "require" (← requireOf caller module)
  bindName realm "exports" (← Load.exports caller module)
  bindName realm "__filename" (.text output.text)
  bindName realm "__dirname" (.text (← Load.dirname caller module).text)
  bindName realm "module" (.obj module)
  bindName realm "global" (.obj (← Load.script (globalOf realm)))

/-- A new realm with the copied globals of the caller and the bindings of a module. -/
def prepare (caller : RealmRef) (output : Path) (module : Ref) : Load RealmRef := do
  let realm ← Load.script (Eval.update Script.Heap.addRealm)
  copyKeys caller realm (← Load.script do shownKeys (← globalOf caller))
  bindModule caller realm output module
  return realm

/-- Runs a file as the body of a module and gives the value of its last statement. -/
def run (caller : RealmRef) (output : Path) (module : Ref) : Load Value := do
  let text ← Load.readFile output
  let realm ← prepare caller output module
  let text ← Load.withoutNul text
  Load.script (Script.runText realm false text)

end LoadHook.Sandbox
