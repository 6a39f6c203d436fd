import LoadHook.Script.BuiltIn.Basic

/-!
# Functions on objects

What the constructor of objects offers, and what every object inherits.
-/
namespace LoadHook.Script.BuiltIn

open Machine (toObject)

variable (m : Machine) (realm : RealmRef)

/-! ## Descriptors of properties -/

/-- A part of a described property, if it is there. -/
def part (r : Ref) (name : String) : Eval (Option Value) := do
  if (← Eval.read (·.find r (key name))).isSome then
    return some (← m.getRef realm r (key name))
  else return none

/-- A getter or setter of a described property. -/
def accessorPart (v : Value) : Eval (Option Ref) := do
  match v with
  | .undefined => return none
  | .obj r =>
    if (← Eval.read (·.object r)).callable then return some r
    else typeError realm "invalid getter or setter"
  | _ => typeError realm "invalid getter or setter"

/-- What an object asks of a property. -/
def toDescriptor (v : Value) : Eval Descriptor := do
  match v with
  | .obj r =>
    let enumerable ← part m realm r "enumerable"
    let configurable ← part m realm r "configurable"
    let value ← part m realm r "value"
    let writable ← part m realm r "writable"
    let get ← match ← part m realm r "get" with
      | some v => pure (some (← accessorPart realm v))
      | none => pure none
    let set ← match ← part m realm r "set" with
      | some v => pure (some (← accessorPart realm v))
      | none => pure none
    let d : Descriptor :=
      { value := value, writable := writable.map Value.truthy, get := get, set := set
        enumerable := enumerable.map Value.truthy, configurable := configurable.map Value.truthy }
    if d.isAccessor && d.isData then typeError realm "cannot have both accessor and value"
    return d
  | _ => typeError realm "not an object"

/-- The value of a getter or setter. -/
def accessorValue : Option Ref → Value
  | some r => .obj r
  | none => .undefined

/-- An object that describes a property. -/
def describe (p : Property) : Eval Value :=
  let rest := [(key "enumerable", Value.bool p.enumerable),
    (key "configurable", .bool p.configurable)]
  newObject realm (match p.content with
    | .data v w => (key "value", v) :: (key "writable", .bool w) :: rest
    | .accessor g s => (key "get", accessorValue g) :: (key "set", accessorValue s) :: rest)

/-- Defines a property as an object describes it. -/
def defineAs (r : Ref) (k : Key) (v : Value) : Eval Unit := do
  let d ← toDescriptor m realm v
  if !(← Eval.update (·.define r k d)) then typeError realm "property is not configurable"

/-- The object that a function must be given. -/
def needObject (v : Value) : Eval Ref := do
  match v with
  | .obj r => return r
  | _ => typeError realm "not an object"

/-- Defines the properties that the members of an object describe. -/
def defineAll (r : Ref) (v : Value) : Eval Unit := do
  let members ← m.ownEnumerable realm v []
  Eval.each (fun p => defineAs m realm r p.1 p.2) members

/-- Puts an object above another; tells whether it could. -/
def changeProto (h : Heap) (r : Ref) (proto : Option Ref) : Bool × Heap :=
  let o := h.object r
  let cyclic := match proto with
    | some p => p == r || h.isAbove (h.objects.size + 1) r p
    | none => false
  if o.proto == proto then (true, h)
  else if !o.extensible || cyclic then (false, h)
  else (true, h.modifyObject r fun o => { o with proto := proto })

/-! ## The constructor's functions -/

/-- A property that can no longer be changed. -/
def fixedProperty (freeze : Bool) (p : Property) : Property :=
  { p with
    configurable := false
    content := match p.content with
      | .data v w => .data v (w && !freeze)
      | c => c }

/-- Whether a property can no longer be changed. -/
def isFixed (frozen : Bool) (p : Property) : Bool :=
  !p.configurable && match p.content with
    | .data _ w => !(w && frozen)
    | _ => true

/-- Makes an object that cannot be extended, of properties that cannot be changed. -/
def fix (freeze : Bool) (v : Value) : Eval Value := do
  if let .obj r := v then
    Eval.change (·.modifyObject r fun o =>
      { o with extensible := false, props := o.props.map fun p => (p.1, fixedProperty freeze p.2) })
  return v

/-- Whether an object can no longer be changed. -/
def fixedObject (frozen : Bool) (v : Value) : Eval Value := do
  match v with
  | .obj r =>
    let o ← Eval.read (·.object r)
    return .bool (!o.extensible && o.props.all fun p => isFixed frozen p.2)
  | _ => return .bool true

/-- Copies the own enumerable properties of values to an object, in order. -/
def assignAll (target : Value) : List Value → Eval Unit
  | [] => pure ()
  | source :: rest => do
    let props ← m.ownEnumerable realm source []
    Eval.each (fun p => m.assign realm true target p.1 p.2) props
    assignAll target rest

/-- The functions of the constructor of objects. -/
def objectFunctions : List BuiltIn := [
  ⟨"keys", 1, fun m realm _ args => do
    keyArray realm ((← m.ownEnumerable realm (.obj (← toObject realm (argument args 0))) []).map
      Prod.fst)⟩,
  ⟨"values", 1, fun m realm _ args => do
    newArray realm ((← m.ownEnumerable realm (.obj (← toObject realm (argument args 0))) []).map
      Prod.snd)⟩,
  ⟨"entries", 1, fun m realm _ args => do
    let props ← m.ownEnumerable realm (.obj (← toObject realm (argument args 0))) []
    newArray realm (← Eval.collect (fun p => newArray realm [.str p.1, p.2]) props)⟩,
  ⟨"fromEntries", 1, fun m realm _ args => do
    let entries ← m.elements realm (argument args 0)
    newObject realm (← Eval.collect (fun e => do
      let k ← m.toKey realm (← m.get realm e (natKey 0))
      return (k, ← m.get realm e (natKey 1))) entries)⟩,
  ⟨"assign", 2, fun m realm _ args => do
    let target := Value.obj (← toObject realm (argument args 0))
    assignAll m realm target args.tail
    return target⟩,
  ⟨"create", 2, fun m realm _ args => do
    let proto ← match argument args 0 with
      | .obj r => pure (some r)
      | .null => pure none
      | _ => typeError realm "not a prototype"
    let r ← Eval.update (·.addPlain proto)
    match argument args 1 with
    | .undefined => return .obj r
    | v => do
      defineAll m realm r v
      return .obj r⟩,
  ⟨"freeze", 1, fun _ _ _ args => fix true (argument args 0)⟩,
  ⟨"seal", 1, fun _ _ _ args => fix false (argument args 0)⟩,
  ⟨"preventExtensions", 1, fun _ _ _ args => do
    if let .obj r := argument args 0 then
      Eval.change (·.modifyObject r fun o => { o with extensible := false })
    return argument args 0⟩,
  ⟨"isFrozen", 1, fun _ _ _ args => fixedObject true (argument args 0)⟩,
  ⟨"isSealed", 1, fun _ _ _ args => fixedObject false (argument args 0)⟩,
  ⟨"isExtensible", 1, fun _ _ _ args => do
    match argument args 0 with
    | .obj r => return .bool (← Eval.read (·.object r)).extensible
    | _ => return .bool false⟩,
  ⟨"defineProperty", 3, fun m realm _ args => do
    let r ← needObject realm (argument args 0)
    let k ← m.toKey realm (argument args 1)
    defineAs m realm r k (argument args 2)
    return .obj r⟩,
  ⟨"defineProperties", 2, fun m realm _ args => do
    let r ← needObject realm (argument args 0)
    defineAll m realm r (argument args 1)
    return .obj r⟩,
  ⟨"getOwnPropertyDescriptor", 2, fun m realm _ args => do
    let r ← toObject realm (argument args 0)
    let k ← m.toKey realm (argument args 1)
    match ← Eval.read (·.own r k) with
    | some p => describe realm p
    | none => return .undefined⟩,
  ⟨"getOwnPropertyDescriptors", 1, fun _ realm _ args => do
    let r ← toObject realm (argument args 0)
    let o ← Eval.read (·.object r)
    newObject realm (← Eval.collect (fun (k, p) => do return (k, ← describe realm p))
      (o.ownKeys.filterMap fun k => (o.own k).map (k, ·)))⟩,
  ⟨"getOwnPropertyNames", 1, fun _ realm _ args => do
    let r ← toObject realm (argument args 0)
    keyArray realm (← Eval.read (·.object r)).ownKeys⟩,
  ⟨"getPrototypeOf", 1, fun _ realm _ args => do
    let r ← toObject realm (argument args 0)
    match (← Eval.read (·.object r)).proto with
    | some p => return .obj p
    | none => return .null⟩,
  ⟨"setPrototypeOf", 2, fun _ realm _ args => do
    let proto ← match argument args 1 with
      | .obj p => pure (some p)
      | .null => pure none
      | _ => typeError realm "not an object"
    match argument args 0 with
    | .obj r =>
      if !(← Eval.update (changeProto · r proto)) then typeError realm "object is not extensible"
    | .undefined | .null => typeError realm "not an object"
    | _ => pure ()
    return argument args 0⟩,
  ⟨"is", 2, fun _ _ _ args => return .bool ((argument args 0).identical (argument args 1))⟩,
  ⟨"hasOwn", 2, fun m realm _ args => do
    let r ← toObject realm (argument args 0)
    let k ← m.toKey realm (argument args 1)
    return .bool (← Eval.read (·.own r k)).isSome⟩]

/-! ## What objects inherit -/

/-- What an object calls itself. -/
def tagOf (h : Heap) : Value → String
  | .undefined => "Undefined"
  | .null => "Null"
  | .bool _ => "Boolean"
  | .num _ => "Number"
  | .str _ => "String"
  | .obj r =>
    match (h.object r).kind with
    | .plain => "Object"
    | .array => "Array"
    | .error => "Error"
    | .arguments => "Arguments"
    | .boolean _ => "Boolean"
    | .number _ => "Number"
    | .string _ => "String"
    | .closure _ | .native _ _ | .bound _ _ _ => "Function"
    | .tagged tag => tag

/-- The functions that every object inherits. -/
def objectMethods : List BuiltIn := [
  ⟨"hasOwnProperty", 1, fun m realm this args => do
    let k ← m.toKey realm (argument args 0)
    let r ← toObject realm this
    return .bool (← Eval.read (·.own r k)).isSome⟩,
  ⟨"isPrototypeOf", 1, fun _ realm this args => do
    match argument args 0 with
    | .obj r =>
      let above ← toObject realm this
      return .bool (← Eval.read fun h => h.isAbove (h.objects.size + 1) above r)
    | _ => return .bool false⟩,
  ⟨"propertyIsEnumerable", 1, fun m realm this args => do
    let k ← m.toKey realm (argument args 0)
    let r ← toObject realm this
    return .bool (((← Eval.read (·.own r k)).map Property.enumerable).getD false)⟩,
  ⟨"toLocaleString", 0, fun m realm this _ => m.method realm this (key "toString") []⟩,
  ⟨"toString", 0, fun _ _ this _ => do
    return .text ("[object " ++ tagOf (← Eval.read id) this ++ "]")⟩,
  ⟨"valueOf", 0, fun _ realm this _ => return .obj (← toObject realm this)⟩]

/-- The getter and the setter for the object above an object. -/
def protoAccessors : List BuiltIn := [
  ⟨"get __proto__", 0, fun _ realm this _ => do
    let r ← toObject realm this
    match (← Eval.read (·.object r)).proto with
    | some p => return .obj p
    | none => return .null⟩,
  ⟨"set __proto__", 1, fun _ realm this args => do
    let proto ← match argument args 0 with
      | .obj p => pure (some (some p))
      | .null => pure (some none)
      | _ => pure none
    match this, proto with
    | .obj r, some proto =>
      if !(← Eval.update (changeProto · r proto)) then typeError realm "object is not extensible"
      return .undefined
    | _, _ => return .undefined⟩]

end LoadHook.Script.BuiltIn
