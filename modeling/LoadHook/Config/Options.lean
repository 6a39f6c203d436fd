import LoadHook.Json.Printer
import LoadHook.Path.Normal

/-!
# Compiler options

The options of a configuration with every path made absolute. Nulls are left out;
the value of an option that is a path, and the texts in one that is a list of paths,
are taken from the directory of the configuration.
-/
namespace LoadHook

/-- Options by name, sorted. -/
structure Options where
  entries : List (String × Json)
  deriving Inhabited

namespace Options

/-- Options whose value is a path. -/
def pathOptions : List String :=
  ["outDir", "outFile", "out", "rootDir", "baseUrl", "declarationDir", "tsBuildInfoFile"]

/-- Options whose value is a list of paths. -/
def pathListOptions : List String := ["typeRoots", "rootDirs"]

/-- Options that the command line gives. -/
def reservedOptions : List String := ["listEmittedFiles", "pretty"]

/-- A path taken from a directory, in normal form. -/
def resolvePath (base : Path) (s : String) : String := (base / Path.ofString s).normalize.text

/-- An item of a list of paths. -/
def resolveItem (base : Path) : Json → Json
  | .str s => .str (resolvePath base s)
  | j => j

/-- The value of an option; none for null. -/
def convert (base : Path) (name : String) : Json → Option Json
  | .null => none
  | .str s => some (.str (if pathOptions.contains name then resolvePath base s else s))
  | .arr items =>
    some (.arr (if pathListOptions.contains name then items.map (resolveItem base) else items))
  | j => some j

/-- The options that a sorted list of members gives. -/
def ofMembers (members : List (String × Json)) (base : Path) : Options :=
  ⟨members.filterMap fun m => (convert base m.1 m.2).map (m.1, ·)⟩

/-- No options. -/
def empty : Options := ⟨[]⟩

/-- The value of an option. -/
def get? (o : Options) (name : String) : Option Json := Json.lookup name o.entries

/-- How many options there are. -/
def size (o : Options) : Nat := o.entries.length

/-- Whether there is no option. -/
def isEmpty (o : Options) : Bool := o.entries.isEmpty

/-- The directory that output goes to. -/
def outDir (o : Options) : Option Path := ((o.get? "outDir").bind Json.str?).map Path.ofString

/-- The options as one document. -/
def toJson (o : Options) : Json := .obj o.entries

/-- The options as compact JSON text. -/
def text (o : Options) : String := o.toJson.compact

/-- The project that compiles exactly `source` with the options. -/
def project (o : Options) (source : Path) : Json :=
  .ofMembers
    [("compilerOptions", .obj (o.entries.filter fun e => !reservedOptions.contains e.1)),
     ("files", .arr [.str source.text]),
     ("include", .arr [])]

@[simp] theorem get?_empty (name : String) : empty.get? name = none := rfl

end Options
end LoadHook
