import LoadHook.Files.Cause
import LoadHook.Path.Basic

/-!
# Why a source is not compiled

The failures that keep a source from being compiled, each with one text. None of
them reaches the module that required the source.
-/
namespace LoadHook

/-- Why a source is not compiled. -/
inductive CompileError where
  | configNotFound (source : Path)
  | configRead (path : Path) (cause : Cause)
  | configParse (path : Path) (message : String)
  | toolchain (program : String) (cause : Cause)
  | projectWrite (path : Path) (cause : Cause)
  | noScriptEmitted (source : Path)
  deriving DecidableEq

namespace CompileError

/-- The text of a failure. -/
def message : CompileError → String
  | .configNotFound source => "unable to find configuration file for " ++ source.text
  | .configRead path cause => "failed to read " ++ path.text ++ ": " ++ cause.message
  | .configParse path message => "invalid configuration in " ++ path.text ++ ": " ++ message
  | .toolchain program cause => "failed to run compiler '" ++ program ++ "': " ++ cause.message
  | .projectWrite path cause =>
    "failed to write compiler project " ++ path.text ++ ": " ++ cause.message
  | .noScriptEmitted source => "compiler emitted no script for " ++ source.text

end CompileError
end LoadHook
