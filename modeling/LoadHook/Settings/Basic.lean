import LoadHook.Json.Printer
import LoadHook.World

/-!
# Settings

What a hook is told: the name of the configuration, the extensions it serves, the
compiler to run, and the environment variable that turns diagnostics on.
-/
namespace LoadHook

/-- The settings of a hook. -/
structure Settings where
  configFileName : String
  extensions : List String
  compiler : Option Path
  debugVar : String
  deriving DecidableEq

namespace Settings

/-- The variable that names the compiler to run. -/
def compilerVariable : String := "TSHOOK_TSC"

/-- The settings when nothing is said. -/
def standard : Settings := ⟨"tsconfig.json", ["ts"], none, "TSHOOK_DEBUG"⟩

/-- The standard settings with the compiler that the environment names, if it names one. -/
def ofEnvironment (w : World) : Settings :=
  match w.envValue? compilerVariable with
  | some program =>
    if program.isEmpty then standard else { standard with compiler := some (Path.ofString program) }
  | none => standard

/-- Whether the variable for diagnostics is set to a text that is not empty. -/
def debugEnabled (s : Settings) (w : World) : Bool :=
  match w.envValue? s.debugVar with
  | some value => !value.isEmpty
  | none => false

/-- The fields with their values in JSON, in their order. -/
def fields (s : Settings) : List (String × Json) :=
  [("config_file_name", .str s.configFileName), ("extensions", .arr (s.extensions.map .str)),
   ("compiler", .ofString? (s.compiler.map Path.text)), ("debug_var", .str s.debugVar)]

/-- The settings as compact JSON text, the fields in their order. -/
def text (s : Settings) : String := (Json.obj s.fields).compact

end Settings
end LoadHook
