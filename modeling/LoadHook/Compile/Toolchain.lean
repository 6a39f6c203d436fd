import LoadHook.Compile.Emission
import LoadHook.Compile.Program
import LoadHook.Config.Search

/-!
# Toolchains

A toolchain compiles one source. The compiler proper is a program: it is given a
project that names just that source, lists the files it writes, and its diagnostics go
to the log. The project is removed again whatever the compiler does.
-/
namespace LoadHook

/-- Compiles a source with its configuration. The number counts the runs of the toolchain,
the first being 1. -/
abbrev Toolchain := Nat → Path → Config → World → Except CompileError Emission × World

namespace Tsc

/-- Where a project keeps a compiler of its own. -/
def localCompiler : Path := "node_modules/.bin/tsc"

/-- The given program, else the compiler of the project that holds a directory, else the one of
the search path. -/
def locate (t : FileTree) (program : Option Path) (dir : Path) : Path :=
  program.getD (((dir.ancestors.map (·.join localCompiler)).find? t.isFile).getD "tsc")

/-- Where the project for a source is written. -/
def projectPath (w : World) (dir source : Path) : Path :=
  dir / ⟨".tshook-".toList ++ Nat.toDigits 10 w.pid ++ '-' :: source.fileStem.getD [] ++
    ".tsconfig.json".toList⟩

/-- The compiler's arguments. -/
def arguments (project : Path) : List String :=
  ["-p", project.text, "--listEmittedFiles", "--pretty", "false"]

/-- Warns of each line. -/
def warnLines (w : World) (lines : List (List Char)) : World :=
  lines.foldl (fun w line => w.report .warn .compiler ("  " ++ String.ofList line)) w

/-- Removes the project, or warns that it could not be removed. -/
def removeProject (w : World) (project : Path) : World :=
  match w.tree.removeFile project with
  | .ok t => { w with tree := t }
  | .error cause =>
    w.report .warn .compiler ("  failed to remove " ++ project.text ++ ": " ++ cause.message)

/-- Reads what a compiler that has run has to say. -/
def digest (w : World) (program : Path) (f : Finished) : Emission × World :=
  let (emission, diagnostics) := Emission.ofListing (Text.decodeLossy f.stdout)
  let w := warnLines w diagnostics
  let w := warnLines w ((Text.lines (Text.decodeLossy f.stderr)).filter fun l => !Text.allBlank l)
  let w := if f.ending.success then w else
    w.report .debug .compiler ("  " ++ program.text ++ " exited with " ++ f.ending.text)
  (emission, w)

/-- Compiles with the compiler proper. -/
def toolchain (runner : Runner) (program : Option Path) : Toolchain := fun _ source config w =>
  let program := locate w.tree program config.dir
  let project := projectPath w config.dir source
  match w.tree.writeText project (config.options.project source).compact w.now with
  | .error cause => (.error (.projectWrite project cause), w)
  | .ok t =>
    let (outcome, t) := runner { w with tree := t } ⟨program, arguments project, config.dir⟩
    let w := removeProject { w with tree := t } project
    match outcome with
    | .error cause => (.error (.toolchain program.text cause), w)
    | .ok f =>
      let (emission, w) := digest w program f
      (.ok emission, w)

end Tsc
end LoadHook
