import LoadHook.Module.Entry

/-!
# The command

The command loads its arguments as entry modules, in order and in one host, and stops at
the first that fails. Its log goes to the standard output, and the report of a failure,
with all that lies behind it, to the standard error.
-/
namespace LoadHook.Command

/-- What the log calls the parts of the program. -/
def targetName : Source → String
  | .command => "tshook"
  | .config => "tshook_core::config"
  | .compiler => "tshook_core::compiler"
  | .module => "tshook_script::module"
  | .hook => "tshook_script::hook"
  | .console => "console"

/-- What the log calls a level. -/
def levelName : Level → String
  | .error => "ERROR"
  | .warn => "WARN"
  | .info => "INFO"
  | .debug => "DEBUG"

/-- An event as the log shows it. -/
def eventText (e : Event) : String :=
  levelName e.level ++ " " ++ targetName e.source ++ ": " ++ e.text

/-- The first line of the log. -/
def banner : String := "tshook v0.1.0"

/-- What is said when there are no arguments. -/
def usage : String := "usage: tshook <entry>..."

/-! ## Reports -/

/-- The lines of a text. -/
def lines : List Char → List (List Char)
  | [] => [[]]
  | c :: rest =>
    match lines rest with
    | l :: more => if c = '\n' then [] :: l :: more else (c :: l) :: more
    | [] => [[c]]

/-- A cause as a report shows it: indented, and numbered if it has a number. -/
def causeText (number : Option Nat) (text : String) : List Char :=
  let front := match number with
    | some n => "    ".toList ++ Nat.toDigits 10 n ++ ": ".toList
    | none => "    ".toList
  let margin := List.replicate (if number.isSome then 7 else 4) ' '
  front ++ List.intercalate ('\n' :: margin) (lines text.toList)

/-- The text of a report: the message, and what caused it. -/
def reportText (message : String) (causes : List String) : String :=
  let shown := match causes with
    | [] => []
    | [cause] => [causeText none cause]
    | causes => causes.zipIdx.map fun (cause, n) => causeText (some n) cause
  let behind := if shown.isEmpty then []
    else "\n\nCaused by:".toList ++ shown.flatMap fun c => '\n' :: c
  "Error: " ++ message ++ String.ofList behind ++ "\n"

/-- The causes that an error reports. -/
def causes (e : LoadError) : List String := e.message :: e.source?.toList

/-! ## Running -/

/-- How the command ends: its exit code, what it reports, and the world with the log. -/
structure Outcome where
  code : Nat
  report : String
  world : World

/-- Loads entries in order up to the first that fails; tells which that is, and why. -/
def runEntries (h : Host) : List String → Option (String × LoadError) × Host
  | [] => (none, h)
  | entry :: rest =>
    match h.runMain (Path.ofString entry) with
    | (.ok (), h) => runEntries h rest
    | (.error e, h) => (some (entry, e), h)

/-- The stack that an error carries. -/
def stack? : LoadError → Option String
  | .exception _ stack => stack
  | _ => none

/-- What the log says at the end. -/
def summary (stats : HookStats) : String :=
  "done compilations=" ++ Nat.repr stats.compilations ++ " cache_hits=" ++
    Nat.repr stats.cacheHits ++ " aborted=" ++ Nat.repr stats.aborted

/-- A host with a hook for the settings. -/
def prepare (runner : Runner) (settings : Settings) (w : World) : Host :=
  let (number, h) := (Host.start w).addHook
    (.new settings (Tsc.toolchain runner settings.compiler))
  settings.extensions.foldl (fun h e => h.register e (Hook.handler number)) h

/-- Runs the command in a world. -/
def run (runner : Runner) (arguments : List String) (w : World) : Outcome :=
  let settings := Settings.ofEnvironment w
  let w := w.report .info .command banner
  if arguments.isEmpty then ⟨1, reportText usage [], w⟩
  else
    match runEntries (prepare runner settings w) arguments with
    | (some (entry, e), h) =>
      let w := h.workspace.world
      let w := match stack? e with
        | some stack => w.report .error .command stack
        | none => w
      ⟨1, reportText (entry ++ " failed") (causes e), w⟩
    | (none, h) =>
      let stats := (h.workspace.hooks[0]?.map Hook.stats).getD ⟨0, 0, 0⟩
      ⟨0, "", h.workspace.world.report .debug .command (summary stats)⟩

/-- The events that the log shows: all of them if the settings turn diagnostics on, else those
above the lowest level. -/
def shownEvents (settings : Settings) (w : World) : List Event :=
  w.log.toList.filter fun e => settings.debugEnabled w || e.level != .debug

end LoadHook.Command
