import LoadHook.Path.Basic

/-!
# Normal paths

`Path.normalize` removes `.` and resolves `..` by the text alone. A `..` at the root
is dropped; at the front of a relative path it stays.
-/
namespace LoadHook.Path

/-- Puts a component on a path kept with its last component first. -/
def push (done : List Component) (c : Component) : List Component :=
  match c with
  | .current => done
  | .parent =>
    match done with
    | .normal _ :: rest => rest
    | .root :: _ => done
    | _ => .parent :: done
  | .root => .root :: done
  | .normal s => .normal s :: done

/-- The path of components written with single separators. -/
def render : List Component → Path
  | .root :: rest => ⟨'/' :: joinSegments (rest.map Component.piece)⟩
  | cs => ⟨joinSegments (cs.map Component.piece)⟩

/-- The components of a path with `.` and `..` resolved by the text. -/
def normalComponents (p : Path) : List Component := (p.components.foldl push []).reverse

/-- The path with `.` and `..` resolved by the text. -/
def normalize (p : Path) : Path := render p.normalComponents

/-- Whether a path is its own normal form. -/
def isNormal (p : Path) : Bool := p.normalize == p

@[simp] theorem push_current (done : List Component) : push done .current = done := rfl
@[simp] theorem push_normal (done : List Component) (s : Name) :
    push done (.normal s) = .normal s :: done := rfl

/-- Component-equal paths have the same normal form. -/
theorem normalize_eq_of_same {p q : Path} (h : p.same q) : p.normalize = q.normalize := by
  have : p.components = q.components := by simpa [same] using h
  simp [normalize, normalComponents, this]

end LoadHook.Path
