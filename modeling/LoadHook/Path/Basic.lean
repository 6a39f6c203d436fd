/-!
# Paths

A path is the text by which a file is named. Two texts name the same components
when they differ only in repeated separators, inner `.` and a separator at the end;
`Path.same` compares by components, while equality of paths is that of their texts.
-/
namespace LoadHook

/-- A file name by its text, kept as it was written. -/
structure Path where
  chars : List Char
  deriving DecidableEq, Inhabited

/-- The name of a directory entry. -/
abbrev Name := List Char

/-- A step of a path. A `.` counts only at the beginning of a relative path. -/
inductive Component where
  | root
  | current
  | parent
  | normal (name : Name)
  deriving DecidableEq

namespace Component

/-- The component of a piece that does not begin a relative path. -/
def ofPiece (s : Name) : Option Component :=
  if s = [] || s = ['.'] then none
  else if s = ['.', '.'] then some .parent
  else some (.normal s)

/-- The piece of text of a component. -/
def piece : Component → Name
  | .root => []
  | .current => ['.']
  | .parent => ['.', '.']
  | .normal s => s

end Component

namespace Path

/-- The path of a text. -/
def ofString (s : String) : Path := ⟨s.toList⟩

/-- The text of a path. -/
def text (p : Path) : String := String.ofList p.chars

instance : Coe String Path := ⟨ofString⟩

@[simp] theorem chars_ofString (s : String) : (ofString s).chars = s.toList := rfl
@[simp] theorem text_ofString (s : String) : (ofString s).text = s := String.ofList_toList

theorem ofString_text (p : Path) : ofString p.text = p := congrArg Path.mk String.toList_ofList

/-- The pieces of a text between separators. -/
def segments : List Char → List (List Char)
  | [] => [[]]
  | c :: rest =>
    if c = '/' then [] :: segments rest
    else match segments rest with
      | s :: more => (c :: s) :: more
      | [] => [[c]]

/-- Joins pieces with one separator between two. -/
def joinSegments : List (List Char) → List Char
  | [] => []
  | [s] => s
  | s :: t :: rest => s ++ '/' :: joinSegments (t :: rest)

theorem segments_ne_nil (cs : List Char) : segments cs ≠ [] := by
  induction cs with
  | nil => simp [segments]
  | cons c rest ih =>
    unfold segments
    split
    · simp
    · split <;> simp

@[simp] theorem joinSegments_segments (cs : List Char) : joinSegments (segments cs) = cs := by
  induction cs with
  | nil => rfl
  | cons c rest ih =>
    unfold segments
    split
    · next h =>
      match hs : segments rest with
      | [] => exact absurd hs (segments_ne_nil rest)
      | s :: more => rw [hs] at ih; simp [joinSegments, ih, h]
    · next h =>
      match hs : segments rest with
      | [] => exact absurd hs (segments_ne_nil rest)
      | [s] => rw [hs] at ih; simpa [joinSegments] using ih
      | s :: t :: more => rw [hs] at ih; simpa [joinSegments] using ih

/-- Whether a path begins at the root. -/
def isAbsolute (p : Path) : Bool := p.chars.head? == some '/'

/-- The text after the separator that makes a path absolute. -/
def body (p : Path) : List Char := if p.isAbsolute then p.chars.tail else p.chars

/-- The pieces of a path after its root. -/
def pieces (p : Path) : List Name := segments p.body

/-- The components of a path. -/
def components (p : Path) : List Component :=
  if p.isAbsolute then .root :: p.pieces.filterMap Component.ofPiece
  else match p.pieces with
    | s :: rest =>
      (if s = ['.'] then [.current] else (Component.ofPiece s).toList) ++
        rest.filterMap Component.ofPiece
    | [] => []

/-- Whether two paths have the same components. -/
def same (p q : Path) : Bool := p.components == q.components

/-- The path with `q` taken from `p`: an absolute `q` stands alone. -/
def join (p q : Path) : Path :=
  if q.isAbsolute then q
  else if p.chars.isEmpty || p.chars.getLast? == some '/' then ⟨p.chars ++ q.chars⟩
  else ⟨p.chars ++ '/' :: q.chars⟩

instance : Div Path := ⟨join⟩

/-- Whether the piece at a place adds nothing: it is empty, or a `.` that does not begin a
relative path. -/
def isVoid (absolute : Bool) (index : Nat) (s : Name) : Bool :=
  s = [] || (s = ['.'] && (absolute || index != 0))

/-- Drops the pieces at the end that add nothing. -/
def dropVoid (absolute : Bool) : List Name → List Name
  | [] => []
  | s :: rest => go 0 (s :: rest)
where
  /-- `dropVoid` for the pieces from `index` on. -/
  go (index : Nat) : List Name → List Name
    | [] => []
    | s :: rest =>
      match go (index + 1) rest with
      | [] => if isVoid absolute index s then [] else [s]
      | kept => s :: kept

/-- The path of an optional root and pieces. -/
def ofPieces (absolute : Bool) (ps : List Name) : Path :=
  ⟨if absolute then '/' :: joinSegments ps else joinSegments ps⟩

/-- The path without the pieces at its end that add nothing. -/
def withoutVoid (p : Path) : Path := ofPieces p.isAbsolute (dropVoid p.isAbsolute p.pieces)

/-- The path without its last component, none for the root and the empty path. What stays
is kept as written. -/
def parent (p : Path) : Option Path :=
  match dropVoid p.isAbsolute p.pieces with
  | [] => none
  | ps => some (ofPieces p.isAbsolute (dropVoid p.isAbsolute ps.dropLast))

/-- The path and the `n` nearest directories above it. -/
def ancestorsUpTo (n : Nat) (p : Path) : List Path :=
  match n with
  | 0 => [p]
  | n + 1 =>
    match p.parent with
    | none => [p]
    | some q => p :: ancestorsUpTo n q

/-- The path and all directories above it, the nearest first. -/
def ancestors (p : Path) : List Path := ancestorsUpTo p.chars.length p

/-- The last component, if it is a name. -/
def fileName (p : Path) : Option Name :=
  match p.components.getLast? with
  | some (.normal s) => some s
  | _ => none

/-- Cuts a name at its last dot. A name without dot, or with its only dot in front, has no
second part. -/
def cutName (s : Name) : Name × Option Name :=
  match s.reverse.span (· != '.') with
  | (_, []) => (s, none)
  | (_, [_]) => (s, none)
  | (ext, _ :: stem) => (stem.reverse, some ext.reverse)

/-- The last component without its extension. -/
def fileStem (p : Path) : Option Name := p.fileName.map fun s => (cutName s).1

/-- What follows the last dot of the last component. -/
def extension (p : Path) : Option Name := p.fileName.bind fun s => (cutName s).2

/-- The path with more characters at its end. -/
def append (p : Path) (cs : List Char) : Path := ⟨p.chars ++ cs⟩

end Path
end LoadHook
