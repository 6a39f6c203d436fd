import LoadHook.Files.Tree
import LoadHook.Text.Utf8

/-!
# Reading and changing files

The operations on a file tree: each either succeeds with a new tree or fails with a
cause and leaves the tree alone.
-/
namespace LoadHook.FileTree

/-- The permission bits of a new file. -/
def plainMode : Nat := 0o644

/-- The bytes of a regular file. -/
def readBytes (t : FileTree) (p : Path) : Except Cause ByteArray := do
  match ← t.stat p with
  | (_, .file bytes _ _) => return bytes
  | _ => throw .isADirectory

/-- The text of a regular file. -/
def readText (t : FileTree) (p : Path) : Except Cause String := do
  match Text.decode (← t.readBytes p) with
  | some s => return s
  | none => throw .notText

/-- When a file or directory was last changed. -/
def mtime (t : FileTree) (p : Path) : Except Cause Time := do
  match ← t.stat p with
  | (_, .file _ mtime _) => return mtime
  | (_, .dir mtime) => return mtime
  | (_, .link _) => throw .tooManyLinks

/-- Writes a file, in the place of one that is there. -/
def write (t : FileTree) (p : Path) (bytes : ByteArray) (now : Time) : Except Cause FileTree := do
  match ← t.locate p true with
  | .found place (.file _ _ mode) => return t.put place (.file bytes now mode)
  | .found _ _ => throw .isADirectory
  | .missing directory name => return t.put (directory ++ [name]) (.file bytes now plainMode)

/-- Writes a text. -/
def writeText (t : FileTree) (p : Path) (text : String) (now : Time) : Except Cause FileTree :=
  t.write p (Text.encode text) now

/-- Sets when a file or directory was last changed. -/
def setMtime (t : FileTree) (p : Path) (mtime : Time) : Except Cause FileTree := do
  match ← t.stat p with
  | (place, .file bytes _ mode) => return t.put place (.file bytes mtime mode)
  | (place, .dir _) => return t.put place (.dir mtime)
  | (_, .link _) => throw .tooManyLinks

/-- Sets the permission bits of a file. -/
def setMode (t : FileTree) (p : Path) (mode : Nat) : Except Cause FileTree := do
  match ← t.stat p with
  | (place, .file bytes mtime _) => return t.put place (.file bytes mtime mode)
  | _ => return t

/-- Makes a symbolic link. -/
def link (t : FileTree) (p target : Path) : Except Cause FileTree := do
  match ← t.locate p false with
  | .found _ _ => throw .alreadyExists
  | .missing directory name => return t.put (directory ++ [name]) (.link target)

/-- Makes one directory. -/
def makeDir (t : FileTree) (p : Path) (now : Time) : Except Cause FileTree := do
  match ← t.locate p.withoutVoid true with
  | .found _ _ => throw .alreadyExists
  | .missing directory name => return t.put (directory ++ [name]) (.dir now)

/-- Makes one directory; one that is there already is as good as a new one. -/
def ensureDir (t : FileTree) (p : Path) (now : Time) : Except Cause FileTree :=
  match t.makeDir p now with
  | .ok t => .ok t
  | .error cause => if t.isDir p then .ok t else .error cause

/-- Makes the first of some directories, each of which stands in the next; those that are missing
are made too. -/
def makeNested (t : FileTree) (now : Time) : List Path → Except Cause FileTree
  | [] => .ok t
  | p :: above =>
    match t.ensureDir p now with
    | .error (.system 2) => do (← t.makeNested now above).ensureDir p now
    | r => r

/-- Makes a directory and the directories above it. -/
def makeDirs (t : FileTree) (p : Path) (now : Time) : Except Cause FileTree :=
  t.makeNested now (p.ancestors.filter fun q => !q.chars.isEmpty)

/-- Removes a file or link. -/
def removeFile (t : FileTree) (p : Path) : Except Cause FileTree := do
  match ← t.locate p false with
  | .found _ (.dir _) => throw .isADirectory
  | .found place _ => return t.cut place
  | .missing _ _ => throw .notFound

/-- Removes a file, or a directory with all it holds. -/
def remove (t : FileTree) (p : Path) : Except Cause FileTree := do
  match ← t.locate p false with
  | .found place _ => return t.cut place
  | .missing _ _ => throw .notFound

/-- The names below a directory, with whether a directory is named. -/
def below (t : FileTree) (p : Path) : Except Cause (List (Path × Bool)) := do
  let (place, _) ← t.stat p
  return (t.nodes.filter fun n => place.isPrefixOf n.1 && n.1 != place).map fun n =>
    (p.join ⟨Path.joinSegments (n.1.drop place.length)⟩,
      match n.2 with
      | .dir _ => true
      | _ => false)

end LoadHook.FileTree
