import LoadHook.Script.Property

/-!
# What operations need of evaluation

The operations of the language call functions, and functions are run by the evaluator,
which needs the operations. A `Machine` stands between them: the operations take it as
an argument, and the evaluator gives itself. Here are also the errors that operations
throw, and access to properties through getters and setters.
-/
namespace LoadHook.Script

/-- Where code runs. -/
structure Context where
  scope : ScopeRef
  realm : RealmRef
  /-- The scope of the variables of the function, or of the script. -/
  vars : ScopeRef
  /-- The names of functions in blocks that are variables there too. -/
  raised : List Key
  strict : Bool
  /-- Whether the values of expression statements are kept. -/
  script : Bool
  /-- The labels that stand before the statement. -/
  labels : List Key

/-- How a statement ends. -/
inductive Completion where
  | normal
  | return (v : Value)
  | break (label : Option Key)
  | continue (label : Option Key)

/-- What a pattern does with its names. -/
inductive Binding.Mode where
  /-- It assigns to names that are bound. -/
  | assign
  /-- It gives names of the scope their first value. -/
  | declare
  deriving DecidableEq

/-- The parts of evaluation that operations need. -/
structure Machine where
  expr : Context → Expr → Eval Value
  stmt : Context → Stmt → Eval Completion
  /-- Takes a value apart. -/
  bind : Context → Binding.Mode → Pattern → Value → Eval Unit
  /-- Calls a function from code of a realm, with `this` and arguments. -/
  call : RealmRef → Value → Value → List Value → Eval Value
  /-- Constructs an object from code of a realm: constructor, arguments, new target. -/
  construct : RealmRef → Ref → List Value → Ref → Eval Value

/-! ## Errors -/

/-- What the stack of an error looks like. -/
def stackText : String := "    at <anonymous>\n"

/-- Adds an error object of a kind with own properties. -/
def Heap.addError (h : Heap) (realm : RealmRef) (kind : ErrorKind) (props : List (Key × Property)) :
    Ref × Heap :=
  h.addObject ⟨.error, (h.realm realm).errorProtos.lookup kind, true, props⟩

/-- The stack of a new error. -/
def stackProperty : Key × Property := (key "stack", .hidden (.text stackText))

/-- Makes an error as the language itself throws it. -/
def makeError (realm : RealmRef) (kind : ErrorKind) (message : String) : Eval Value :=
  Eval.update fun h =>
    let (r, h) := h.addError realm kind [(key "message", .hidden (.text message)), stackProperty]
    (.obj r, h)

/-- Throws an error. -/
def raise {α : Type} (realm : RealmRef) (kind : ErrorKind) (message : String) : Eval α := do
  Eval.throw (← makeError realm kind message)

/-- Throws a type error. -/
def typeError {α : Type} (realm : RealmRef) (message : String) : Eval α :=
  raise realm .type message

/-- The text of a key for a message. -/
def keyText (k : Key) : String := Text.Utf16.toString k

/-! ## Access to properties -/

namespace Machine

variable (m : Machine)

/-- Calls a value, which may be no function. -/
def invoke (realm : RealmRef) (f this : Value) (args : List Value) : Eval Value := do
  if ← Eval.read (·.callable f) then m.call realm f this args else typeError realm "not a function"

/-- The value of a property found for a receiver. -/
def valueOf (realm : RealmRef) (receiver : Value) (p : Option Property) : Eval Value :=
  match p with
  | none => pure .undefined
  | some p =>
    match p.content with
    | .data v _ => pure v
    | .accessor (some g) _ => m.call realm (.obj g) receiver []
    | .accessor none _ => pure .undefined

/-- The value of an object's property. -/
def getRef (realm : RealmRef) (r : Ref) (k : Key) : Eval Value := do
  m.valueOf realm (.obj r) (← Eval.read (·.find r k))

/-- The object in which the properties of a value are looked up, in a realm. -/
def prototypeOf (h : Heap) (realm : RealmRef) : Value → Option Ref
  | .obj r => some r
  | .str _ => some (h.realm realm).stringProto
  | .num _ => some (h.realm realm).numberProto
  | .bool _ => some (h.realm realm).booleanProto
  | _ => none

/-- The value of a property of any value. -/
def get (realm : RealmRef) (v : Value) (k : Key) : Eval Value := do
  let own := match v with
    | .str s => Object.unitProperty s k
    | _ => none
  match own with
  | some p => m.valueOf realm v (some p)
  | none =>
    match ← Eval.read (prototypeOf · realm v) with
    | some r => m.valueOf realm v (← Eval.read (·.find r k))
    | none =>
      let kind := match v with
        | .null => "null"
        | _ => "undefined"
      typeError realm ("cannot read property '" ++ keyText k ++ "' of " ++ kind)

/-- Puts a value as a property of its own on an object; tells whether it could be. -/
def putData (realm : RealmRef) (r : Ref) (k : Key) (v : Value) : Eval Bool := do
  let o ← Eval.read (·.object r)
  if o.isArray && k == lengthKey then
    match v with
    | .num x =>
      let n := Numeric.toUInt32 x
      if n.toNat.toFloat == x then
        match o.setLength n.toNat {} with
        | some (o, whole) =>
          Eval.change (·.modifyObject r fun _ => o)
          return whole
        | none => return false
      else raise realm .range "invalid array length"
    | _ => raise realm .range "invalid array length"
  else match o.own k with
    | some p =>
      match p.content with
      | .data _ true => Eval.update (·.define r k { value := some v })
      | _ => return false
    | none => Eval.update (·.define r k (.ofProperty (.plain v)))

/-- Sets a property of an object for a receiver; tells whether it could be. -/
def setRef (realm : RealmRef) (r : Ref) (k : Key) (v receiver : Value) : Eval Bool := do
  match (← Eval.read (·.find r k)).map Property.content with
  | some (.accessor _ (some s)) =>
    let _ ← m.call realm (.obj s) receiver [v]
    return true
  | some (.accessor _ none) => return false
  | some (.data _ false) => return false
  | _ =>
    match receiver with
    | .obj target => putData realm target k v
    | _ => return false

/-- Sets a property of any value; tells whether it could be. -/
def set (realm : RealmRef) (target : Value) (k : Key) (v : Value) : Eval Bool := do
  match ← Eval.read (prototypeOf · realm target) with
  | some r => m.setRef realm r k v target
  | none =>
    let kind := match target with
      | .null => "null"
      | _ => "undefined"
    typeError realm ("cannot set property '" ++ keyText k ++ "' of " ++ kind)

/-- Sets a property; in strict mode it is an error if it cannot be set. -/
def assign (realm : RealmRef) (strict : Bool) (target : Value) (k : Key) (v : Value) :
    Eval Unit := do
  let done ← m.set realm target k v
  if !done && strict then typeError realm ("'" ++ keyText k ++ "' is read-only")

/-- Calls a method of a value. -/
def method (realm : RealmRef) (v : Value) (k : Key) (args : List Value) : Eval Value := do
  m.invoke realm (← m.get realm v k) v args

end Machine

/-! ## New objects -/

/-- A new plain object of a realm with properties. -/
def newObject (realm : RealmRef) (props : List (Key × Value)) : Eval Value :=
  Eval.update fun h =>
    let (r, h) := h.addObject ⟨.plain, some (h.realm realm).objectProto, true,
      props.map fun p => (p.1, .plain p.2)⟩
    (.obj r, h)

/-- A new array of a realm. -/
def newArray (realm : RealmRef) (items : List Value) : Eval Value :=
  Eval.update fun h =>
    let (r, h) := h.addArray (h.realm realm).arrayProto (items.map some)
    (.obj r, h)

end LoadHook.Script
