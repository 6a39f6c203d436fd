import LoadHook.Files.Access
import LoadHook.Json.Reader
import LoadHook.Path.Normal

/-!
# From specifiers to files

A specifier that is a path is taken from the directory of the module that asks. Any other
names a package, which is looked for in the package directories of that directory and of
those above it. Where a file is meant its extension may be left out, and a directory
stands for its main file.
-/
namespace LoadHook.Resolution

/-- Whether a specifier is a path. -/
def isPathLike (specifier : List Char) : Bool :=
  specifier == ['.'] || specifier == ['.', '.'] || ['.', '/'].isPrefixOf specifier ||
    ['.', '.', '/'].isPrefixOf specifier || (⟨specifier⟩ : Path).isAbsolute

/-- The first existing file among a path and the path with each extension. -/
def file? (t : FileTree) (extensions : List String) (base : Path) : Option Path :=
  if t.isFile base then some base
  else (extensions.map fun e => base.append ('.' :: e.toList)).find? t.isFile

/-- The first existing index file of a directory. -/
def index? (t : FileTree) (extensions : List String) (dir : Path) : Option Path :=
  (extensions.map fun e => dir / ⟨"index.".toList ++ e.toList⟩).find? t.isFile

/-- What the manifest of a directory names as its main file. -/
def main? (t : FileTree) (dir : Path) : Option Path := do
  let text ← (t.readText (dir / "package.json")).toOption
  let manifest ← (Json.parse text).toOption
  let main ← manifest.get? "main"
  return Path.ofString (← main.str?)

/-- The main file of a directory: the one that its manifest names, else its index file. -/
def directory? (t : FileTree) (extensions : List String) (dir : Path) : Option Path :=
  if t.isDir dir then
    let named := (main? t dir).bind fun main =>
      let entry := (dir / main).normalize
      (file? t extensions entry).or (index? t extensions entry)
    named.or (index? t extensions dir)
  else none

/-- The file that a path stands for. -/
def lookup (t : FileTree) (extensions : List String) (base : Path) : Option Path :=
  (file? t extensions base).or (directory? t extensions base)

/-- Where a specifier may lead, in the order in which it is tried. -/
def bases (specifier : List Char) (dir : Path) : List Path :=
  if isPathLike specifier then [(dir / ⟨specifier⟩).normalize]
  else dir.ancestors.map fun d => d / "node_modules" / ⟨specifier⟩

/-- The file of a specifier taken from a directory. -/
def resolve (t : FileTree) (extensions : List String) (specifier : String) (dir : Path) :
    Option Path :=
  (bases specifier.toList dir).findSome? (lookup t extensions)

end LoadHook.Resolution
