import LoadHook.Script.Numeric
import LoadHook.Script.Property

/-!
# Data of scripts

The data that values hold apart from any heap: what can be written as JSON. Texts are
sequences of units and numbers are doubles, as in scripts. Members stand in the order in
which they are written.
-/
namespace LoadHook.Script

/-- Data without a heap. -/
inductive Document where
  | null
  | bool (b : Bool)
  | num (x : Float)
  | str (s : Text.Utf16)
  | arr (items : List Document)
  | obj (members : List (Key × Document))
  deriving Inhabited

namespace Document

/-! ## Printing -/

/-- A hexadecimal digit in lower case. -/
def hexUnit (n : Nat) : UInt16 := ((Nat.digitChar (n % 16)).toNat).toUInt16

/-- A unit as an escape of four digits. -/
def escapeUnit (u : UInt16) : Text.Utf16 :=
  let n := u.toNat
  [92, 117, hexUnit (n / 4096), hexUnit (n / 256), hexUnit (n / 16), hexUnit n]

/-- A unit that does not belong to a surrogate pair, inside quotes. -/
def quoteUnit (u : UInt16) : Text.Utf16 :=
  if u == 34 then [92, 34]
  else if u == 92 then [92, 92]
  else if u == 8 then [92, 98]
  else if u == 12 then [92, 102]
  else if u == 10 then [92, 110]
  else if u == 13 then [92, 114]
  else if u == 9 then [92, 116]
  else if u < 32 || Text.Utf16.isLead u || Text.Utf16.isTrail u then escapeUnit u
  else [u]

/-- Units inside quotes; surrogate pairs stand for themselves. -/
def quoteUnits : Text.Utf16 → Text.Utf16
  | [] => []
  | [u] => quoteUnit u
  | u :: v :: rest =>
    if Text.Utf16.isLead u && Text.Utf16.isTrail v then u :: v :: quoteUnits rest
    else quoteUnit u ++ quoteUnits (v :: rest)

/-- A text in quotes. -/
def quote (s : Text.Utf16) : Text.Utf16 := 34 :: quoteUnits s ++ [34]

/-- What stands before an item or a closing bracket: nothing, or a line end with a margin. -/
def lineStart (gap margin : Text.Utf16) : Text.Utf16 := if gap.isEmpty then [] else 10 :: margin

mutual

/-- The text of data, nested parts being indented by a gap more than the margin. -/
def print (gap margin : Text.Utf16) : Document → Text.Utf16
  | .null => key "null"
  | .bool b => key (if b then "true" else "false")
  | .num x => if Decimal.isFinite x then key (Numeric.text x) else key "null"
  | .str s => quote s
  | .arr [] => key "[]"
  | .arr (d :: rest) =>
    91 :: lineStart gap (margin ++ gap) ++ print gap (margin ++ gap) d ++
      printItems gap (margin ++ gap) rest ++ lineStart gap margin ++ [93]
  | .obj [] => [123, 125]
  | .obj (m :: rest) =>
    123 :: lineStart gap (margin ++ gap) ++ printMember gap (margin ++ gap) m ++
      printMembers gap (margin ++ gap) rest ++ lineStart gap margin ++ [125]

/-- The text of the items after the first. -/
def printItems (gap margin : Text.Utf16) : List Document → Text.Utf16
  | [] => []
  | d :: rest => 44 :: lineStart gap margin ++ print gap margin d ++ printItems gap margin rest

/-- The text of a member. -/
def printMember (gap margin : Text.Utf16) : Key × Document → Text.Utf16
  | (k, d) => quote k ++ (if gap.isEmpty then [58] else [58, 32]) ++ print gap margin d

/-- The text of the members after the first. -/
def printMembers (gap margin : Text.Utf16) : List (Key × Document) → Text.Utf16
  | [] => []
  | m :: rest =>
    44 :: lineStart gap margin ++ printMember gap margin m ++ printMembers gap margin rest

end

/-! ## Into a heap -/

mutual

/-- The value of data in a heap, its objects belonging to a realm. -/
def toValue (realm : RealmRef) : Document → Heap → Value × Heap
  | .null, h => (.null, h)
  | .bool b, h => (.bool b, h)
  | .num x, h => (.num x, h)
  | .str s, h => (.str s, h)
  | .arr items, h =>
    let (vs, h) := itemValues realm items h
    let (r, h) := h.addArray (h.realm realm).arrayProto (vs.map some)
    (.obj r, h)
  | .obj members, h =>
    let (props, h) := memberValues realm members h
    let (r, h) := h.addObject ⟨.plain, some (h.realm realm).objectProto, true,
      props.foldl (fun all p => putKey p.1 (.plain p.2) all) []⟩
    (.obj r, h)

/-- The values of items in order. -/
def itemValues (realm : RealmRef) : List Document → Heap → List Value × Heap
  | [], h => ([], h)
  | d :: rest, h =>
    let (v, h) := toValue realm d h
    let (vs, h) := itemValues realm rest h
    (v :: vs, h)

/-- The values of members in order. -/
def memberValues (realm : RealmRef) : List (Key × Document) → Heap → List (Key × Value) × Heap
  | [], h => ([], h)
  | (k, d) :: rest, h =>
    let (v, h) := toValue realm d h
    let (ps, h) := memberValues realm rest h
    ((k, v) :: ps, h)

end

end Document
end LoadHook.Script
