/-!
# JSON values

A JSON document as a tree. Members of an object are kept sorted by name, with one
member for each name; `Json.insert` keeps it so, the last writer winning.
-/
namespace LoadHook

/-- A JSON document. Whole numbers and binary fractions stay apart. -/
inductive Json where
  | null
  | bool (b : Bool)
  | int (n : Int)
  | real (x : Float)
  | str (s : String)
  | arr (items : List Json)
  | obj (members : List (String × Json))
  deriving Inhabited

namespace Json

variable {α : Type}

/-- The member of a name. -/
def lookup (name : String) (members : List (String × α)) : Option α := List.lookup name members

/-- Puts a member into a list sorted by name, in the place of one of the same name. -/
def insert (name : String) (value : α) : List (String × α) → List (String × α)
  | [] => [(name, value)]
  | (n, v) :: rest =>
    if name = n then (name, value) :: rest
    else if name < n then (name, value) :: (n, v) :: rest
    else (n, v) :: insert name value rest

/-- The sorted members of a list in which a later member replaces an earlier one. -/
def sortMembers (members : List (String × α)) : List (String × α) :=
  members.foldl (fun sorted m => insert m.1 m.2 sorted) []

/-- The object with the given members, of which the last of each name counts. -/
def ofMembers (members : List (String × Json)) : Json := .obj (sortMembers members)

/-- A number of things. -/
def ofNat (n : Nat) : Json := .int n

/-- The text, or null for none. -/
def ofString? : Option String → Json
  | none => .null
  | some s => .str s

/-- The member of a name, if the document is an object. -/
def get? (name : String) : Json → Option Json
  | .obj members => lookup name members
  | _ => none

/-- The text, if the document is one. -/
def str? : Json → Option String
  | .str s => some s
  | _ => none

/-- The truth value, if the document is one. -/
def bool? : Json → Option Bool
  | .bool b => some b
  | _ => none

/-- The whole number, if the document is one. -/
def int? : Json → Option Int
  | .int n => some n
  | _ => none

/-- The items, if the document is an array. -/
def arr? : Json → Option (List Json)
  | .arr items => some items
  | _ => none

/-- The members, if the document is an object. -/
def obj? : Json → Option (List (String × Json))
  | .obj members => some members
  | _ => none

/-- The text at a name; missing text reads as empty. -/
def text (name : String) (j : Json) : String := ((j.get? name).bind str?).getD ""

/-- The items at a name; a missing list reads as empty. -/
def list (name : String) (j : Json) : List Json := ((j.get? name).bind arr?).getD []

/-- The members at a name; a missing object reads as empty. -/
def table (name : String) (j : Json) : List (String × Json) := ((j.get? name).bind obj?).getD []

@[simp] theorem insert_nil (name : String) (value : α) :
    insert name value [] = [(name, value)] := rfl

@[simp] theorem lookup_insert_self (name : String) (value : α) (members : List (String × α)) :
    lookup name (insert name value members) = some value := by
  induction members with
  | nil => simp [lookup, insert]
  | cons m rest ih =>
    obtain ⟨n, v⟩ := m
    unfold insert
    by_cases h : name = n
    · simp [h, lookup]
    · by_cases hlt : name < n
      · simp [h, hlt, lookup]
      · have hn : (name == n) = false := by simp [h]
        simpa [h, hlt, lookup, List.lookup_cons, hn] using ih

end Json
end LoadHook
