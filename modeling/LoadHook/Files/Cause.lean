/-!
# Why a file operation fails

The system's own causes by their number, and the refusals that come before the
system is asked. Each has one text.
-/
namespace LoadHook

/-- The cause of a failed file operation. -/
inductive Cause where
  /-- The system refused, with its error number. -/
  | system (code : Nat)
  /-- A file name holds a NUL. -/
  | nulInName
  /-- The name of a program to run holds a NUL. -/
  | nulInProgram
  /-- The bytes of a file are not UTF-8. -/
  | notText
  /-- An empty path was to be made absolute. -/
  | emptyPath
  deriving DecidableEq, Repr

namespace Cause

abbrev notFound : Cause := .system 2
abbrev badFormat : Cause := .system 8
abbrev denied : Cause := .system 13
abbrev alreadyExists : Cause := .system 17
abbrev notADirectory : Cause := .system 20
abbrev isADirectory : Cause := .system 21
abbrev nameTooLong : Cause := .system 36
abbrev tooManyLinks : Cause := .system 40

/-- The system's texts, the first being that of error number 1. -/
def systemTexts : List String :=
  ["Operation not permitted", "No such file or directory", "No such process",
   "Interrupted system call", "Input/output error", "No such device or address",
   "Argument list too long", "Exec format error", "Bad file descriptor", "No child processes",
   "Resource temporarily unavailable", "Cannot allocate memory", "Permission denied",
   "Bad address", "Block device required", "Device or resource busy", "File exists",
   "Invalid cross-device link", "No such device", "Not a directory", "Is a directory",
   "Invalid argument", "Too many open files in system", "Too many open files",
   "Inappropriate ioctl for device", "Text file busy", "File too large",
   "No space left on device", "Illegal seek", "Read-only file system", "Too many links",
   "Broken pipe", "Numerical argument out of domain", "Numerical result out of range",
   "Resource deadlock avoided", "File name too long", "No locks available",
   "Function not implemented", "Directory not empty", "Too many levels of symbolic links"]

/-- The system's text for an error number. -/
def systemText (code : Nat) : String :=
  match code with
  | 0 => "Success"
  | n + 1 => (systemTexts[n]?).getD ("Unknown error " ++ Nat.repr code)

/-- The text of a cause. -/
def message : Cause → String
  | .system code => systemText code ++ " (os error " ++ Nat.repr code ++ ")"
  | .nulInName => "file name contained an unexpected NUL byte"
  | .nulInProgram => "nul byte found in provided data"
  | .notText => "stream did not contain valid UTF-8"
  | .emptyPath => "cannot make an empty path absolute"

end Cause
end LoadHook
