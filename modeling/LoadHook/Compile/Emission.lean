import LoadHook.Path.Basic
import LoadHook.Text.Blank

/-!
# Emissions

A file written by the compiler, an artifact, has a kind, which the file's name tells. The
double endings of declaration files count in either letter case, those of scripts
only in lower case.

The files of one compiler run in the order they were written. The script compiled
from a source is the last one with the source's stem, else the last one at all.
The compiler's listing names each written file on a line of its own; every other
line that is not blank is a diagnostic.
-/
namespace LoadHook

/-- What kind of file the compiler wrote. -/
inductive ArtifactKind where
  | script | sourceMap | declaration | buildInfo | other
  deriving DecidableEq, Repr

namespace ArtifactKind

/-- Whether a name ends in `ending`. -/
def endsIn (ending : String) (name : Name) : Bool := ending.toList.isSuffixOf name

/-- The extensions of scripts. -/
def scriptExtensions : List Name := ["js", "mjs", "cjs", "jsx"].map String.toList

/-- The kind of a file by its path. -/
def ofPath (p : Path) : ArtifactKind :=
  let name := Text.lowerAscii (p.fileName.getD [])
  if endsIn ".d.ts" name || endsIn ".d.mts" name || endsIn ".d.cts" name then .declaration
  else if endsIn ".map" name then .sourceMap
  else if endsIn ".tsbuildinfo" name then .buildInfo
  else match p.extension with
    | some ext => if scriptExtensions.contains ext then .script else .other
    | none => .other

/-- The name of a kind. -/
def name : ArtifactKind → String
  | .script => "Script"
  | .sourceMap => "SourceMap"
  | .declaration => "Declaration"
  | .buildInfo => "BuildInfo"
  | .other => "Other"

end ArtifactKind

/-- A file that the compiler wrote. -/
structure Artifact where
  path : Path
  kind : ArtifactKind
  deriving DecidableEq

/-- A written file, its kind told by its path. -/
def Artifact.ofPath (p : Path) : Artifact := ⟨p, .ofPath p⟩

@[simp] theorem Artifact.path_ofPath (p : Path) : (Artifact.ofPath p).path = p := rfl
@[simp] theorem Artifact.kind_ofPath (p : Path) : (Artifact.ofPath p).kind = .ofPath p := rfl

/-- The files that one compiler run wrote, the first first. -/
structure Emission where
  artifacts : List Artifact
  deriving DecidableEq

namespace Emission

/-- No file was written. -/
def empty : Emission := ⟨[]⟩

/-- Records a written file. -/
def push (e : Emission) (p : Path) : Emission := ⟨e.artifacts ++ [Artifact.ofPath p]⟩

/-- The emission of written files. -/
def ofPaths (ps : List Path) : Emission := ⟨ps.map Artifact.ofPath⟩

/-- Whether nothing was written. -/
def isEmpty (e : Emission) : Bool := e.artifacts.isEmpty

/-- The scripts written. -/
def scripts (e : Emission) : List Path :=
  (e.artifacts.filter fun a => a.kind == .script).map Artifact.path

/-- The script written last. -/
def lastScript (e : Emission) : Option Path := e.scripts.getLast?

/-- The script compiled from a source. -/
def scriptFor (e : Emission) (source : Path) : Option Path :=
  (e.scripts.reverse.find? fun s => s.fileStem == source.fileStem).or e.lastScript

@[simp] theorem artifacts_push (e : Emission) (p : Path) :
    (e.push p).artifacts = e.artifacts ++ [Artifact.ofPath p] := rfl

/-! ## The compiler's listing -/

/-- What stands before the path of a written file. -/
def fileMark : List Char := "TSFILE: ".toList

/-- What a line of the listing says. -/
inductive Line where
  | written (p : Path)
  | diagnostic (text : List Char)
  | blank
  deriving DecidableEq

/-- Reads a line of the listing; blanks at its end do not count. -/
def Line.ofText (cs : List Char) : Line :=
  let line := Text.trimEnd cs
  match Text.after? fileMark line with
  | some p => .written ⟨Text.trim p⟩
  | none => if Text.allBlank line then .blank else .diagnostic line

/-- The path of a written file, if the line names one. -/
def Line.path? : Line → Option Path
  | .written p => some p
  | _ => none

/-- The text of a diagnostic, if the line is one. -/
def Line.diagnostic? : Line → Option (List Char)
  | .diagnostic text => some text
  | _ => none

/-- Reads a listing: the files written, and the diagnostics. -/
def ofListing (text : List Char) : Emission × List (List Char) :=
  let lines := (Text.lines text).map Line.ofText
  (ofPaths (lines.filterMap Line.path?), lines.filterMap Line.diagnostic?)

end Emission
end LoadHook
