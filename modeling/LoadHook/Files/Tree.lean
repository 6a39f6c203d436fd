import LoadHook.Files.Cause
import LoadHook.Path.Basic

/-!
# File trees

A file tree maps places to nodes. A place is the list of names that lead to it from
the root, so it holds neither `.` nor `..` nor a symbolic link; `FileTree.locate`
leads from a path to a place as the system does, name by name.
-/
namespace LoadHook

/-- A point in time, in nanoseconds from the epoch; negative before it. -/
structure Time where
  nanos : Int
  deriving DecidableEq, Inhabited, Repr

namespace Time

/-- The time of whole seconds and nanoseconds added to them. -/
def ofSeconds (secs : Int) (nanos : Int) : Time := ⟨secs * 1000000000 + nanos⟩

/-- Whether a time is strictly later than another. -/
def later (a b : Time) : Bool := b.nanos < a.nanos

end Time

/-- A directory or file by the names that lead to it from the root. -/
abbrev Place := List Name

-- libraries bring an instance of their own along, which is not the same
local instance bytesDecidableEq : DecidableEq ByteArray := ByteArray.instDecidableEq

/-- What a directory entry is. -/
inductive Node where
  | file (bytes : ByteArray) (mtime : Time) (mode : Nat)
  | dir (mtime : Time)
  | link (target : Path)
  deriving DecidableEq

/-- The nodes below the root by their places, seen from a working directory. -/
structure FileTree where
  nodes : List (Place × Node)
  cwd : Place
  deriving DecidableEq

/-- Where a path leads: to a node, or to a name that a directory does not hold. -/
inductive Spot where
  | found (place : Place) (node : Node)
  | missing (directory : Place) (name : Name)

namespace FileTree

/-- The node at a place; the root is a directory. -/
def node? (t : FileTree) (place : Place) : Option Node :=
  if place = [] then some (.dir ⟨0⟩) else t.nodes.lookup place

/-- Puts a node at a place. -/
def put (t : FileTree) (place : Place) (node : Node) : FileTree :=
  if (t.nodes.lookup place).isSome then
    { t with nodes := t.nodes.map fun n => if n.1 = place then (place, node) else n }
  else { t with nodes := t.nodes ++ [(place, node)] }

/-- Removes the node at a place and all nodes below it. -/
def cut (t : FileTree) (place : Place) : FileTree :=
  { t with nodes := t.nodes.filter fun n => !place.isPrefixOf n.1 }

/-- The longest name of a directory entry, in bytes. -/
def nameLimit : Nat := 255

/-- The longest path, in bytes. -/
def pathLimit : Nat := 4095

/-- How many symbolic links are followed on the way of one path. -/
def linkLimit : Nat := 40

/-- How many bytes a name takes. -/
def byteLength (s : List Char) : Nat := s.foldl (fun n c => n + c.utf8Size) 0

/-- Where a walk along names ends: at a spot, in a failure, or at a link that is followed. -/
inductive Stop where
  | spot (s : Spot)
  | failed (cause : Cause)
  | link (directory : Place) (target : Path) (rest : List Name)

/-- Walks along names from a directory up to the first link that has to be followed. -/
def walkNames (t : FileTree) (follow : Bool) (directory : Place) : List Name → Stop
  | [] => .spot (.found directory ((t.node? directory).getD (.dir ⟨0⟩)))
  | s :: rest =>
    if s = ['.'] then walkNames t follow directory rest
    else if s = ['.', '.'] then walkNames t follow directory.dropLast rest
    else if nameLimit < byteLength s then .failed .nameTooLong
    else
      let place := directory ++ [s]
      match t.node? place with
      | none => if rest.isEmpty then .spot (.missing directory s) else .failed .notFound
      | some (.dir _) => walkNames t follow place rest
      | some (.link target) =>
        if rest.isEmpty && !follow then .spot (.found place (.link target))
        else .link directory target rest
      | some node => if rest.isEmpty then .spot (.found place node) else .failed .notADirectory

/-- The names that a path walks along. A separator at the end asks for a directory. -/
def namesOf (p : Path) : List Name :=
  p.pieces.filter (· ≠ []) ++ (if p.chars.getLast? == some '/' then [['.']] else [])

/-- Walks along names and through at most `links` symbolic links. -/
def walk (t : FileTree) (follow : Bool) (links : Nat) (directory : Place) (names : List Name) :
    Except Cause Spot :=
  match t.walkNames follow directory names, links with
  | .spot s, _ => .ok s
  | .failed cause, _ => .error cause
  | .link _ _ _, 0 => .error .tooManyLinks
  | .link directory target rest, n + 1 =>
    t.walk follow n (if target.isAbsolute then [] else directory) (namesOf target ++ rest)

/-- Leads from a path to a place; a link at its end is followed or not. -/
def locate (t : FileTree) (p : Path) (follow : Bool) : Except Cause Spot :=
  if p.chars.contains '\x00' then .error .nulInName
  else if p.chars.isEmpty then .error .notFound
  else if pathLimit < byteLength p.chars then .error .nameTooLong
  else t.walk follow linkLimit (if p.isAbsolute then [] else t.cwd) (namesOf p)

/-- The node a path leads to, links followed. -/
def stat (t : FileTree) (p : Path) : Except Cause (Place × Node) := do
  match ← t.locate p true with
  | .found place node => return (place, node)
  | .missing _ _ => throw .notFound

/-- Whether a path leads to a regular file. -/
def isFile (t : FileTree) (p : Path) : Bool :=
  match t.stat p with
  | .ok (_, .file _ _ _) => true
  | _ => false

/-- Whether a path leads to a directory. -/
def isDir (t : FileTree) (p : Path) : Bool :=
  match t.stat p with
  | .ok (_, .dir _) => true
  | _ => false

/-- The absolute path of a place. -/
def pathOf (place : Place) : Path := Path.ofPieces true place

/-- The names along a normal path; the inverse of `pathOf`. -/
def placeOf (p : Path) : Place := p.pieces.filter (· ≠ [])

end FileTree
end LoadHook
