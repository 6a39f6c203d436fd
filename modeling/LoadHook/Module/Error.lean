import LoadHook.Files.Cause
import LoadHook.Script.Heap

/-!
# Why a module cannot be loaded

While a load is in progress a script may have thrown a value, which a script around it may
catch. Outside of all scripts only the message of the value is left. Each error has one
text.
-/
namespace LoadHook

/-- Why a module cannot be loaded. -/
inductive LoadError where
  /-- A value cannot be converted or a text cannot be run. Scripts see an error of a kind. -/
  | engine (kind : Script.ErrorKind) (text : String)
  /-- A script has thrown something with a message, perhaps with a stack. -/
  | exception (message : String) (stack : Option String)
  | moduleNotFound (specifier : String) (dir : Path)
  | unreadable (path : Path) (cause : Cause)
  /-- The exports, or the text of a module, are not what they are read as. -/
  | malformed (fault : String)
  /-- It cannot be told whether a source has changed. -/
  | uncheckable (source : Path) (cause : Cause)
  deriving DecidableEq

namespace LoadError

/-- The text of an error. -/
def message : LoadError → String
  | .engine _ text => "script engine error: " ++ text
  | .exception message _ => message
  | .moduleNotFound specifier dir => "cannot find module '" ++ specifier ++ "' from " ++ dir.text
  | .unreadable path cause => "failed to read " ++ path.text ++ ": " ++ cause.message
  | .malformed fault => "module exports are not valid JSON: " ++ fault
  | .uncheckable source cause =>
    "failed to check " ++ source.text ++ " for changes: " ++ cause.message

/-- The text of what lies behind an error. -/
def source? : LoadError → Option String
  | .engine _ text => some text
  | .exception _ _ | .moduleNotFound _ _ => none
  | .unreadable _ cause | .uncheckable _ cause => some cause.message
  | .malformed fault => some fault

end LoadError

/-- Why a step of a load in progress has no value. -/
inductive Failure where
  | thrown (v : Script.Value)
  | error (e : LoadError)

end LoadHook
