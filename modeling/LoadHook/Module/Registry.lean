import LoadHook.Module.Sandbox
import LoadHook.Path.Map
import LoadHook.Script.BuiltIn.Json

/-!
# Handlers and the registry

Scripts are run and data are read. Two more handlers leave the exports as they are, or
replace them by what the script comes to.

The registry tells which handler serves which extension, and which modules are loaded.
Extensions keep the order in which they were first registered; a path without a
registered extension is served as a script.
-/
namespace LoadHook

namespace Handler

/-- Runs a script. -/
def script : Handler := fun realm module => do
  let file ← Load.filename realm module
  Load.report .debug .module ("  Running " ++ file.text)
  let _ ← Sandbox.run realm file module

/-- Reads JSON into the exports. -/
def json : Handler := fun realm module => do
  let file ← Load.filename realm module
  let text ← Load.withoutNul (← Load.readFile file)
  Load.setExports realm module
    (← Load.script (Script.BuiltIn.parseJson realm (Script.key text)))

/-- Does nothing. -/
def inert : Handler := fun _ _ => pure ()

/-- Runs a script and exports the value of its last statement as `completion`. -/
def completion : Handler := fun realm module => do
  let file ← Load.filename realm module
  let v ← Sandbox.run realm file module
  Load.setExports realm module
    (← Load.script (Script.newObject realm [(Script.key "completion", v)]))

end Handler

/-- Handlers by extension, and module objects by path. -/
structure Registry where
  handlers : List (String × Handler)
  modules : PathMap Script.Ref

namespace Registry

/-- The registry with the handlers of scripts and data, and no module. -/
def initial : Registry := ⟨[("js", .script), ("json", .json)], .empty⟩

/-- An extension without the dots in front. -/
def bareExtension (e : String) : String := String.ofList (e.toList.dropWhile (· == '.'))

/-- Puts a handler in the place of the extension's last one, or at the end. -/
def putHandler (e : String) (f : Handler) : List (String × Handler) → List (String × Handler)
  | [] => [(e, f)]
  | (d, g) :: rest => if d = e then (d, f) :: rest else (d, g) :: putHandler e f rest

/-- Registers a handler for an extension, which may be written with dots in front. -/
def register (g : Registry) (e : String) (f : Handler) : Registry :=
  { g with handlers := putHandler (bareExtension e) f g.handlers }

/-- The registered extensions. -/
def extensions (g : Registry) : List String := g.handlers.map Prod.fst

/-- The handler registered for an extension. -/
def handler? (g : Registry) (e : String) : Option Handler := g.handlers.lookup e

/-- The extension by which a path is served. -/
def extensionOf (p : Path) : String := String.ofList (p.extension.getD [])

/-- The handler that serves a path. -/
def handlerFor (g : Registry) (p : Path) : Handler :=
  ((g.handler? (extensionOf p)).or (g.handler? "js")).getD .script

/-- Whether a module is registered under a path. -/
def isLoaded (g : Registry) (p : Path) : Bool := g.modules.contains p

/-- Registers a module. -/
def insert (g : Registry) (p : Path) (module : Script.Ref) : Registry :=
  { g with modules := g.modules.insert p module }

/-- Removes a module. -/
def erase (g : Registry) (p : Path) : Registry := { g with modules := g.modules.erase p }

/-- Removes all modules. -/
def clear (g : Registry) : Registry := { g with modules := .empty }

end Registry
end LoadHook
