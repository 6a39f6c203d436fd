import LoadHook.Path.Basic

/-!
# Maps by path

Finite maps whose keys are told apart by their components, so that two spellings of one
path share an entry. A lookup after an insertion or a removal is described for the path
itself and for all others.
-/
namespace LoadHook

/-- Two spellings of a path are the same as the same other paths. -/
theorem Path.same_congr_left {p s : Path} (h : s.same p) (q : Path) : s.same q = p.same q := by
  rw [same, beq_iff_eq] at h
  rw [same, same, h]

theorem Path.same_congr_right {p q : Path} (h : p.same q) (s : Path) : s.same p = s.same q := by
  rw [same, beq_iff_eq] at h
  rw [same, same, h]

/-- Values by path. -/
structure PathMap (α : Type) where
  entries : List (Path × α)

namespace PathMap

variable {α : Type}

/-- The map without entries. -/
def empty : PathMap α := ⟨[]⟩

/-- The value of a path among entries. -/
def find (p : Path) : List (Path × α) → Option α
  | [] => none
  | (q, a) :: rest => if q.same p then some a else find p rest

/-- The value of a path. -/
def get? (m : PathMap α) (p : Path) : Option α := find p m.entries

/-- Whether a path has a value. -/
def contains (m : PathMap α) (p : Path) : Bool := (m.get? p).isSome

/-- Puts a value in the place of the path's last one. -/
def put (p : Path) (a : α) : List (Path × α) → List (Path × α)
  | [] => [(p, a)]
  | (q, b) :: rest => if q.same p then (q, a) :: rest else (q, b) :: put p a rest

/-- Gives a path a value. -/
def insert (m : PathMap α) (p : Path) (a : α) : PathMap α := ⟨put p a m.entries⟩

/-- Removes the value of a path. -/
def erase (m : PathMap α) (p : Path) : PathMap α := ⟨m.entries.filter fun e => !e.1.same p⟩

/-- How many paths have a value. -/
def size (m : PathMap α) : Nat := m.entries.length

/-- Whether no path has a value. -/
def isEmpty (m : PathMap α) : Bool := m.entries.isEmpty

@[simp] theorem get?_empty (p : Path) : (empty : PathMap α).get? p = none := rfl

/-- A value is found under every spelling of its path. -/
theorem get?_insert_of_same {m : PathMap α} {p q : Path} {a : α} (h : p.same q) :
    (m.insert p a).get? q = some a := by
  obtain ⟨entries⟩ := m
  simp only [get?, insert]
  induction entries with
  | nil => simp [put, find, h]
  | cons e rest ih =>
    have hsame := Path.same_congr_right h e.1
    by_cases hs : e.1.same p
    · simp [put, find, hs, ← hsame]
    · simp [put, find, hs, ← hsame, ih]

/-- An insertion leaves the other paths alone. -/
theorem get?_insert_of_not_same {m : PathMap α} {p q : Path} {a : α} (h : p.same q = false) :
    (m.insert p a).get? q = m.get? q := by
  obtain ⟨entries⟩ := m
  simp only [get?, insert]
  induction entries with
  | nil => simp [put, find, h]
  | cons e rest ih =>
    by_cases hs : e.1.same p
    · simp [put, find, hs, Path.same_congr_left hs q, h]
    · simp [put, find, hs, ih]

/-- A removed path has no value under any spelling. -/
theorem get?_erase_of_same {m : PathMap α} {p q : Path} (h : p.same q) :
    (m.erase p).get? q = none := by
  obtain ⟨entries⟩ := m
  simp only [get?, erase]
  induction entries with
  | nil => rfl
  | cons e rest ih =>
    have hsame := Path.same_congr_right h e.1
    by_cases hs : e.1.same p
    · simp [hs, ih]
    · simp [find, hs, ← hsame, ih]

/-- A removal leaves the other paths alone. -/
theorem get?_erase_of_not_same {m : PathMap α} {p q : Path} (h : p.same q = false) :
    (m.erase p).get? q = m.get? q := by
  obtain ⟨entries⟩ := m
  simp only [get?, erase]
  induction entries with
  | nil => rfl
  | cons e rest ih =>
    by_cases hs : e.1.same p
    · simp [find, hs, Path.same_congr_left hs q, h, ih]
    · simp [find, hs, ih]

end PathMap
end LoadHook
