import LoadHook.Compile.Error
import LoadHook.Config.Options
import LoadHook.Json.Relaxed.Meaning
import LoadHook.World

/-!
# Configurations

The configuration that governs a source is the regular file of a given name in the
nearest directory at or above the source. Its text is relaxed JSON; of it only
`compilerOptions` counts.
-/
namespace LoadHook

/-- A configuration, the directory it stands in, and its options. -/
structure Config where
  path : Path
  dir : Path
  options : Options

namespace Config

/-- The regular file `name` in the nearest directory at or above `start`. -/
def find? (t : FileTree) (start : Path) (name : String) : Option Path :=
  (start.ancestors.map (· / Path.ofString name)).find? t.isFile

/-- Where the search for a source's configuration begins. -/
def searchDir (source : Path) : Path := source.parent.getD "."

/-- The configuration of a source: a file beside it, else the nearest above. -/
def pathFor? (t : FileTree) (source : Path) (name : String) : Option Path :=
  let beside := searchDir source / Path.ofString name
  if t.isFile beside then some beside else find? t (searchDir source) name

/-- The text without the mark of byte order at its front. -/
def stripMark : List Char → List Char
  | '\uFEFF' :: rest => rest
  | cs => cs

/-- The members of a configuration's text; a blank text has none. -/
def members (path : Path) (text : String) : Except CompileError (List (String × Json)) :=
  let cs := stripMark text.toList
  if Text.allBlank cs then .ok []
  else match Json.Relaxed.parse cs with
    | .ok (.obj members) => .ok members
    | .ok _ => .error (.configParse path "expected a JSON object")
    | .error fault => .error (.configParse path fault.message)

/-- The options of a configuration in `dir`. -/
def optionsOf (path dir : Path) (members : List (String × Json)) : Except CompileError Options :=
  match Json.lookup "compilerOptions" members with
  | none | some .null => .ok .empty
  | some (.obj raw) => .ok (.ofMembers raw dir)
  | some _ => .error (.configParse path "'compilerOptions' must be an object")

/-- Reads the configuration at a path. -/
def read (t : FileTree) (path : Path) : Except CompileError Config := do
  let dir := path.parent.getD ""
  match t.readText path with
  | .error cause => throw (.configRead path cause)
  | .ok text => return ⟨path, dir, ← optionsOf path dir (← members path text)⟩

/-- What is reported of a search when the debug toggle is on. -/
def announce (w : World) (source path : Path) : World :=
  ((w.report .info .config ("Compiling " ++ source.text)).report .info .config
    ("  searchPath: " ++ (searchDir source).text)).report .info .config
    ("  configFileName: " ++ path.text)

/-- Finds and reads the configuration of a source. -/
def resolve (w : World) (source : Path) (name : String) (debug : Bool) :
    Except CompileError Config × World :=
  match pathFor? w.tree source name with
  | none => (.error (.configNotFound source), w)
  | some path => (read w.tree path, if debug then announce w source path else w)

end Config
end LoadHook
