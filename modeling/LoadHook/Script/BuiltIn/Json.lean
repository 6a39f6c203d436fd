import LoadHook.Script.BuiltIn.Basic
import LoadHook.Script.Document.Reader

/-!
# Values to data and back

Reading JSON text makes new objects of a realm. Writing asks every object for what it
shows: first through its `toJSON` method, then by its elements or its own enumerable
properties; functions and undefined show nothing.
-/
namespace LoadHook.Script.BuiltIn

open Text (Utf16)

variable (m : Machine) (realm : RealmRef)

/-- The value of JSON text. -/
def parseJson (us : Utf16) : Eval Value := do
  match Document.parse? us with
  | some d => Eval.update (Document.toValue realm d)
  | none => raise realm .syntactic "unexpected token"

/-- What is asked of the members that are written: a function that replaces values, or the
keys that may be written. -/
structure Selection where
  replacer : Option Value
  keys : Option (List Key)

/-- The primitive value of an object that wraps one. -/
def unwrap (v : Value) : Eval Value := do
  match v with
  | .obj r =>
    match (← Eval.read (·.object r)).kind with
    | .number _ => return .num (← m.toNumber realm v)
    | .string _ => return .str (← m.toText realm v)
    | .boolean b => return .bool b
    | _ => return v
  | v => return v

/-- What a value gives when its `toJSON` method and the replacing function are asked. -/
def shown (replacer : Option Value) (holder : Value) (k : Key) (v : Value) : Eval Value := do
  let v ← match v with
    | .obj r => do
      let f ← m.getRef realm r (key "toJSON")
      if ← Eval.read (·.callable f) then m.call realm f v [.str k] else pure v
    | v => pure v
  let v ← match replacer with
    | some f => m.call realm f holder [.str k, v]
    | none => pure v
  unwrap m realm v

/-- The data that a value shows under a key, none if it shows nothing. `above` are the objects
in which it stands; each takes one of the fuel. -/
def snapshot (selection : Selection) (fuel : Nat) (above : List Ref) (holder : Value) (k : Key)
    (v : Value) : Eval (Option Document) := do
  match fuel with
  | 0 => Eval.stop .overflow
  | n + 1 =>
    match ← shown m realm selection.replacer holder k v with
    | .undefined => return none
    | .null => return some .null
    | .bool b => return some (.bool b)
    | .num x => return some (.num x)
    | .str s => return some (.str s)
    | .obj r =>
      let o ← Eval.read (·.object r)
      if o.callable then return none
      else if above.contains r then typeError realm "circular reference"
      else if o.isArray then
        let length ← m.lengthOf realm (.obj r)
        let items ← Eval.collect (fun i => do
          let item ← m.getRef realm r (natKey i)
          snapshot selection n (r :: above) (.obj r) (natKey i) item) (List.range length)
        return some (.arr (items.map fun d => d.getD .null))
      else
        let own := o.ownKeys.filter fun k => ((o.own k).map Property.enumerable).getD false
        let members ← Eval.collect (fun k => do
          let member ← m.getRef realm r k
          return (← snapshot selection n (r :: above) (.obj r) k member).map (k, ·))
          (selection.keys.getD own)
        return some (.obj (members.filterMap id))

/-- How deep values may be nested. -/
def nestingLimit : Nat := 1500

/-- The data that a value shows. -/
def documentOf (v : Value) : Eval (Option Document) :=
  snapshot m realm ⟨none, none⟩ nestingLimit [] .undefined [] v

/-- The key that a member of a list of keys is. -/
def listedKey (v : Value) : Eval (Option Key) := do
  match v with
  | .str s => return some s
  | .num x => return some (key (Numeric.text x))
  | .obj r =>
    match (← Eval.read (·.object r)).kind with
    | .string _ | .number _ => return some (← m.toText realm v)
    | _ => return none
  | _ => return none

/-- The selection that an argument asks for. -/
def selectionOf (v : Value) : Eval Selection := do
  match v with
  | .obj r =>
    let o ← Eval.read (·.object r)
    if o.callable then return ⟨some v, none⟩
    else if o.isArray then
      let listed ← Eval.collect (listedKey m realm) (← m.elements realm v)
      return ⟨none, some (listed.filterMap id).eraseDups⟩
    else return ⟨none, none⟩
  | _ => return ⟨none, none⟩

/-- The gap that an argument asks for: so many blanks, or a text, of at most ten. -/
def gapOf (v : Value) : Eval Utf16 := do
  match ← unwrap m realm v with
  | .num x => return List.replicate (min 10 (Numeric.truncate x)).toNat 32
  | .str s => return s.take 10
  | _ => return []

/-- The functions on JSON text. -/
def jsonFunctions : List BuiltIn := [
  ⟨"parse", 2, fun m realm _ args => do parseJson realm (← m.toText realm (argument args 0))⟩,
  ⟨"stringify", 3, fun m realm _ args => do
    let v := argument args 0
    let selection ← selectionOf m realm (argument args 1)
    let gap ← gapOf m realm (argument args 2)
    let holder ← newObject realm [([], v)]
    match ← snapshot m realm selection nestingLimit [] holder [] v with
    | some d => return .str (d.print gap [])
    | none => return .undefined⟩]

end LoadHook.Script.BuiltIn
