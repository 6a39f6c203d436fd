import LoadHook.World

/-!
# Running a program

What is known of a program that has run: what it wrote, and how it ended. A
`Runner` says what running a program does to the files.
-/
namespace LoadHook

/-- How a program ended. -/
inductive Ending where
  | exited (code : Nat)
  | killed (signal : Nat)
  deriving DecidableEq

namespace Ending

/-- The names of signals by their numbers, the first being that of number 1. -/
def signalNames : List String :=
  ["SIGHUP", "SIGINT", "SIGQUIT", "SIGILL", "SIGTRAP", "SIGABRT", "SIGBUS", "SIGFPE", "SIGKILL",
   "SIGUSR1", "SIGSEGV", "SIGUSR2", "SIGPIPE", "SIGALRM", "SIGTERM"]

/-- Whether the program ended well. -/
def success (e : Ending) : Bool := e == .exited 0

/-- The text of an ending. -/
def text : Ending → String
  | .exited code => "exit status: " ++ Nat.repr code
  | .killed signal =>
    "signal: " ++ Nat.repr signal ++
      (match signalNames[signal - 1]? with
        | some name => " (" ++ name ++ ")"
        | none => "")

end Ending

/-- What a program that has run leaves behind besides files. -/
structure Finished where
  stdout : ByteArray
  stderr : ByteArray
  ending : Ending

/-- A program with its arguments and its working directory. -/
structure Invocation where
  program : Path
  arguments : List String
  dir : Path

/-- Runs a program: fails before it has started, or tells how it finished; the files may have
changed. -/
abbrev Runner := World → Invocation → Except Cause Finished × FileTree

end LoadHook
