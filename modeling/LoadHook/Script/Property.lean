import LoadHook.Script.Numeric
import LoadHook.Script.Run

/-!
# Properties of objects

The operations on an object's own properties that run no script: finding, defining,
deleting and listing. An array keeps its length above all its indices.
-/
namespace LoadHook.Script

/-- The key of an array's length. -/
def lengthKey : Key := key "length"

/-- The key of a natural. -/
def natKey (n : Nat) : Key := (Nat.toDigits 10 n).map fun c => c.toNat.toUInt16

/-- The array index that a key is. -/
def index? (k : Key) : Option Nat :=
  let isDigit (u : UInt16) : Bool := 48 ≤ u && u ≤ 57
  if k.isEmpty || !k.all isDigit || k.length > 10 || (k.length > 1 && k.head? == some 48) then none
  else
    let n := k.foldl (fun n u => n * 10 + (u.toNat - 48)) 0
    if n < 4294967295 then some n else none

/-- A property by its key. -/
def findKey (k : Key) : List (Key × Property) → Option Property
  | [] => none
  | (n, p) :: rest => if n == k then some p else findKey k rest

/-- Puts a property in the place of one of the same key, or at the end. -/
def putKey (k : Key) (p : Property) : List (Key × Property) → List (Key × Property)
  | [] => [(k, p)]
  | (n, q) :: rest => if n == k then (k, p) :: rest else (n, q) :: putKey k p rest

@[simp] theorem findKey_putKey_self (k : Key) (p : Property) (props : List (Key × Property)) :
    findKey k (putKey k p props) = some p := by
  induction props with
  | nil => simp [findKey, putKey]
  | cons q rest ih =>
    obtain ⟨n, q⟩ := q
    by_cases h : n = k
    · simp [findKey, putKey, h]
    · simp [findKey, putKey, h, ih]

theorem findKey_putKey_of_ne {k l : Key} (h : l ≠ k) (p : Property)
    (props : List (Key × Property)) : findKey l (putKey k p props) = findKey l props := by
  have hk : ¬ k = l := fun e => h e.symm
  induction props with
  | nil => simp [findKey, putKey, hk]
  | cons q rest ih =>
    obtain ⟨n, q⟩ := q
    by_cases hn : n = k
    · simp [findKey, putKey, hn, hk]
    · by_cases hl : n = l
      · simp [findKey, putKey, hl, h]
      · simp [findKey, putKey, hn, hl, ih]

namespace Object

/-- A property that a string object has for a unit or its length. -/
def unitProperty (s : Text.Utf16) (k : Key) : Option Property :=
  if k == lengthKey then some ⟨.data (.nat s.length) false, false, false⟩
  else (index? k).bind fun i => s[i]?.map fun u => ⟨.data (.str [u]) false, true, false⟩

/-- An own property of an object. -/
def own (o : Object) (k : Key) : Option Property :=
  match o.kind with
  | .string s => (unitProperty s k).or (findKey k o.props)
  | _ => findKey k o.props

/-- Whether an object is an array. -/
def isArray (o : Object) : Bool :=
  match o.kind with
  | .array => true
  | _ => false

/-- Whether an object can be called. -/
def callable (o : Object) : Bool :=
  match o.kind with
  | .closure _ | .native _ _ | .bound _ _ _ => true
  | _ => false

/-- The length of an array, and whether it can be changed. -/
def arrayLength (o : Object) : Nat × Bool :=
  match findKey lengthKey o.props with
  | some ⟨.data (.num x) writable, _, _⟩ => ((Numeric.truncate x).toNat, writable)
  | _ => (0, true)

/-- Puts an own property. -/
def put (o : Object) (k : Key) (p : Property) : Object := { o with props := putKey k p o.props }

/-- Removes an own property. -/
def erase (o : Object) (k : Key) : Object := { o with props := o.props.filter fun q => q.1 != k }

/-- The own keys of an object: indices in order, then the others as they were made. -/
def ownKeys (o : Object) : List Key :=
  let units := match o.kind with
    | .string s => (List.range s.length).map natKey
    | _ => []
  let keys := o.props.map Prod.fst
  let indices := keys.filterMap fun k => (index? k).map fun i => (i, k)
  let sorted := (indices.mergeSort fun a b => decide (a.1 ≤ b.1)).map Prod.snd
  let named := keys.filter fun k => (index? k).isNone
  let named := match o.kind with
    | .string _ => lengthKey :: named
    | _ => named
  units ++ sorted ++ named

end Object

namespace Heap

/-- An own property of an object. -/
def own (h : Heap) (r : Ref) (k : Key) : Option Property := (h.object r).own k

/-- The property of a key in an object or the nearest object above it, at most `fuel` objects
up. -/
def findFrom (h : Heap) (fuel : Nat) (r : Ref) (k : Key) : Option Property :=
  match fuel with
  | 0 => none
  | n + 1 =>
    let o := h.object r
    match o.own k with
    | some p => some p
    | none =>
      match o.proto with
      | some up => findFrom h n up k
      | none => none

/-- The property of a key in an object or the nearest object above it. -/
def find (h : Heap) (r : Ref) (k : Key) : Option Property := h.findFrom (h.objects.size + 1) r k

/-- Whether an object stands above another, at most `fuel` objects up. -/
def isAbove (h : Heap) (fuel : Nat) (above r : Ref) : Bool :=
  match fuel with
  | 0 => false
  | n + 1 =>
    match (h.object r).proto with
    | none => false
    | some up => up == above || isAbove h n above up

/-- Puts an own property. -/
def putOwn (h : Heap) (r : Ref) (k : Key) (p : Property) : Heap :=
  h.modifyObject r fun o => o.put k p

/-- Whether a value can be called. -/
def callable (h : Heap) : Value → Bool
  | .obj r => (h.object r).callable
  | _ => false

end Heap

/-! ## Defining properties -/

/-- What is asked of a property; what is not said stays as it is. -/
structure Descriptor where
  value : Option Value := none
  writable : Option Bool := none
  get : Option (Option Ref) := none
  set : Option (Option Ref) := none
  enumerable : Option Bool := none
  configurable : Option Bool := none

namespace Descriptor

/-- Everything that a property says. -/
def ofProperty (p : Property) : Descriptor :=
  match p.content with
  | .data v w =>
    { value := some v, writable := some w
      enumerable := some p.enumerable, configurable := some p.configurable }
  | .accessor g s =>
    { get := some g, set := some s
      enumerable := some p.enumerable, configurable := some p.configurable }

/-- Whether an accessor is asked for. -/
def isAccessor (d : Descriptor) : Bool := d.get.isSome || d.set.isSome

/-- Whether a value is asked for. -/
def isData (d : Descriptor) : Bool := d.value.isSome || d.writable.isSome

/-- The property that is asked for where there is none. -/
def fresh (d : Descriptor) : Property :=
  { content := if d.isAccessor then .accessor (d.get.getD none) (d.set.getD none)
      else .data (d.value.getD .undefined) (d.writable.getD false)
    enumerable := d.enumerable.getD false
    configurable := d.configurable.getD false }

/-- A property after what is asked of it, none if it may not be changed so. -/
def apply (d : Descriptor) (p : Property) : Option Property :=
  let enumerable := d.enumerable.getD p.enumerable
  let configurable := d.configurable.getD p.configurable
  if !p.configurable && (configurable || enumerable != p.enumerable) then none
  else match p.content with
    | .data v w =>
      if d.isAccessor then
        if p.configurable then
          some ⟨.accessor (d.get.getD none) (d.set.getD none), enumerable, configurable⟩
        else none
      else
        let v' := d.value.getD v
        let w' := d.writable.getD w
        if !p.configurable && !w && (w' || !v'.identical v) then none
        else some ⟨.data v' w', enumerable, configurable⟩
    | .accessor g s =>
      if d.isData then
        if p.configurable then
          some ⟨.data (d.value.getD .undefined) (d.writable.getD false), enumerable, configurable⟩
        else none
      else
        let g' := d.get.getD g
        let s' := d.set.getD s
        if !p.configurable && (g' != g || s' != s) then none
        else some ⟨.accessor g' s', enumerable, configurable⟩

end Descriptor

namespace Object

/-- Defines a property of an object that is no array, none if it may not be. -/
def defineNamed (o : Object) (k : Key) (d : Descriptor) : Option Object :=
  match o.own k with
  | none => if o.extensible then some (o.put k d.fresh) else none
  | some p => (d.apply p).map (o.put k)

/-- Removes the elements of an array from the last one down to a length; tells the length that
is reached. -/
def cutTo (o : Object) (length : Nat) : Object × Nat :=
  let fixed := o.props.filterMap fun q =>
    match index? q.1 with
    | some i => if length ≤ i && !q.2.configurable then some (i + 1) else none
    | none => none
  let reached := fixed.foldl max length
  ({ o with props := o.props.filter fun q =>
      match index? q.1 with
      | some i => decide (i < reached)
      | none => true }, reached)

/-- Sets the length of an array; tells whether all elements beyond it could be removed. -/
def setLength (o : Object) (length : Nat) (d : Descriptor) : Option (Object × Bool) :=
  let (old, writable) := o.arrayLength
  if length ≥ old then
    (o.defineNamed lengthKey { d with value := some (.nat length) }).map (·, true)
  else if !writable then none
  else
    let (cut, reached) := o.cutTo length
    (cut.defineNamed lengthKey { d with value := some (.nat reached) }).map (·, reached == length)

/-- Defines a property, none if it may not be. -/
def define (o : Object) (k : Key) (d : Descriptor) : Option Object :=
  match o.kind with
  | .array =>
    match index? k with
    | some i =>
      let (length, writable) := o.arrayLength
      if length ≤ i && !writable then none
      else (o.defineNamed k d).map fun o =>
        if length ≤ i then o.put lengthKey ⟨.data (.nat (i + 1)) writable, false, false⟩ else o
    | none => o.defineNamed k d
  | _ => o.defineNamed k d

end Object

namespace Heap

/-- Defines a property; tells whether it could be. -/
def define (h : Heap) (r : Ref) (k : Key) (d : Descriptor) : Bool × Heap :=
  match (h.object r).define k d with
  | some o => (true, h.modifyObject r fun _ => o)
  | none => (false, h)

/-- Removes a property; tells whether it is gone. -/
def delete (h : Heap) (r : Ref) (k : Key) : Bool × Heap :=
  match h.own r k with
  | none => (true, h)
  | some p => if p.configurable then (true, h.modifyObject r fun o => o.erase k) else (false, h)

/-- Adds a plain object. -/
def addPlain (h : Heap) (proto : Option Ref) : Ref × Heap :=
  h.addObject ⟨.plain, proto, true, []⟩

/-- Adds an array of values. -/
def addArray (h : Heap) (proto : Ref) (items : List (Option Value)) : Ref × Heap :=
  let elements := items.zipIdx.filterMap fun (v, i) => v.map fun v => (natKey i, Property.plain v)
  h.addObject ⟨.array, some proto, true,
    (lengthKey, ⟨.data (.nat items.length) true, false, false⟩) :: elements⟩

end Heap
end LoadHook.Script
