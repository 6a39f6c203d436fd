import LoadHook.Path.Basic
import LoadHook.Script.Tree
import LoadHook.World

/-!
# Script values and the heap

Values are primitive, or refer to an object of the heap. The heap holds objects, the
scopes in which names are bound, and the realms; each realm has a global object and
built-in objects of its own. Nothing is ever removed from the heap.
-/
namespace LoadHook.Script

/-- The number of an object in the heap. -/
abbrev Ref := Nat

/-- The number of a scope in the heap. -/
abbrev ScopeRef := Nat

/-- The number of a realm in the heap. -/
abbrev RealmRef := Nat

/-- A value. -/
inductive Value where
  | undefined
  | null
  | bool (b : Bool)
  | num (x : Float)
  | str (s : Text.Utf16)
  | obj (r : Ref)
  deriving Inhabited

namespace Value

/-- The value of a text. -/
def text (s : String) : Value := .str (key s)

/-- A whole number. -/
def nat (n : Nat) : Value := .num n.toFloat

/-- The object, if the value is one. -/
def ref? : Value → Option Ref
  | .obj r => some r
  | _ => none

/-- Whether a value is neither undefined nor null. -/
def isPresent : Value → Bool
  | .undefined | .null => false
  | _ => true

/-- Whether two values are the same; NaN differs from itself, and zero is minus zero. -/
def same : Value → Value → Bool
  | .undefined, .undefined => true
  | .null, .null => true
  | .bool a, .bool b => a == b
  | .num a, .num b => a == b
  | .str a, .str b => a == b
  | .obj a, .obj b => a == b
  | _, _ => false

/-- Whether two values cannot be told apart. -/
def identical : Value → Value → Bool
  | .num a, .num b => if a == b then a.toBits == b.toBits else a.isNaN && b.isNaN
  | a, b => same a b

end Value

/-! ## Properties -/

/-- What a property holds. -/
inductive Content where
  | data (value : Value) (writable : Bool)
  | accessor (get set : Option Ref)

/-- A property. -/
structure Property where
  content : Content
  enumerable : Bool
  configurable : Bool

namespace Property

/-- A property as assignment makes it. -/
def plain (v : Value) : Property := ⟨.data v true, true, true⟩

/-- A property as built-in objects have them. -/
def hidden (v : Value) : Property := ⟨.data v true, false, true⟩

/-- The value of a data property. -/
def value? (p : Property) : Option Value :=
  match p.content with
  | .data v _ => some v
  | .accessor _ _ => none

end Property

/-! ## Built-in functions -/

/-- The kinds of errors. -/
inductive ErrorKind where
  | error | eval | range | reference | syntactic | type | uri | internal
  deriving DecidableEq, Repr

namespace ErrorKind

/-- All kinds of errors. -/
def all : List ErrorKind := [.error, .eval, .range, .reference, .syntactic, .type, .uri, .internal]

/-- The name of a kind of errors. -/
def name : ErrorKind → String
  | .error => "Error"
  | .eval => "EvalError"
  | .range => "RangeError"
  | .reference => "ReferenceError"
  | .syntactic => "SyntaxError"
  | .type => "TypeError"
  | .uri => "URIError"
  | .internal => "InternalError"

end ErrorKind

/-- The built-in objects that own functions. -/
inductive Owner where
  | global | object | objectPrototype | functionPrototype | array | arrayPrototype
  | string | stringPrototype | number | numberPrototype | booleanPrototype
  | math | json | errorPrototype | performance
  deriving DecidableEq, Repr

/-- The built-in constructors. -/
inductive Maker where
  | object | function | array | string | number | boolean
  | error (kind : ErrorKind)
  deriving DecidableEq, Repr

/-- A function that is not written as a script. -/
inductive Native where
  /-- A function of a built-in object, by its name. -/
  | method (owner : Owner) (name : String)
  | maker (m : Maker)
  /-- Loads a module, specifiers being taken from a directory. -/
  | require (dir : Path)
  /-- Writes a line to the log. -/
  | print (level : Level)
  deriving DecidableEq

/-! ## Objects -/

/-- A function made from a script. `home` is where `super` looks; `fields` are what a class adds
to new objects: a key, and a function that gives the value. -/
structure Closure where
  func : Func
  scope : ScopeRef
  realm : RealmRef
  home : Option Ref
  fields : List (Key × Ref)

/-- What is special about an object. -/
inductive Kind where
  | plain
  /-- A plain object that calls itself by a word. -/
  | tagged (tag : String)
  | array
  | error
  | arguments
  | boolean (b : Bool)
  | number (x : Float)
  | string (s : Text.Utf16)
  | closure (c : Closure)
  | native (n : Native) (realm : RealmRef)
  | bound (target : Ref) (this : Value) (args : List Value)

/-- An object; its properties stand in the order in which they were made. -/
structure Object where
  kind : Kind
  proto : Option Ref
  extensible : Bool
  props : List (Key × Property)

instance : Inhabited Object := ⟨⟨.plain, none, true, []⟩⟩

/-! ## Scopes -/

/-- How a name may be assigned to. -/
inductive Access where
  | mutable
  | constant
  /-- The name of a function inside it: assigning does nothing, or fails in strict mode. -/
  | own
  deriving DecidableEq

/-- A bound name; it has no value before its declaration is reached. -/
structure Binding where
  value : Option Value
  access : Access

/-- What `this` is in a scope. -/
inductive Receiver where
  /-- What it is around the scope. -/
  | outer
  /-- Nothing, until a constructor has called its parent. -/
  | unset
  | value (v : Value)

/-- A scope: names bound in it, or the properties of an object as names. -/
structure Scope where
  bindings : List (Key × Binding)
  object : Option Ref
  parent : Option ScopeRef
  receiver : Receiver
  callee : Option Ref
  newTarget : Value

instance : Inhabited Scope := ⟨⟨[], none, none, .outer, none, .undefined⟩⟩

/-! ## Realms -/

/-- A global object with its built-in objects. -/
structure Realm where
  global : Ref
  /-- The scope of names that are no properties of the global object. -/
  lexical : ScopeRef
  objectProto : Ref
  functionProto : Ref
  arrayProto : Ref
  stringProto : Ref
  numberProto : Ref
  booleanProto : Ref
  errorProtos : List (ErrorKind × Ref)
  deriving Inhabited

/-- All objects, scopes and realms, and the value of the expression statement run last. -/
structure Heap where
  objects : Array Object
  scopes : Array Scope
  realms : Array Realm
  completion : Value

namespace Heap

/-- The heap with nothing in it. -/
def empty : Heap := ⟨#[], #[], #[], .undefined⟩

/-- An object. -/
def object (h : Heap) (r : Ref) : Object := (h.objects[r]?).getD default

/-- A scope. -/
def scope (h : Heap) (s : ScopeRef) : Scope := (h.scopes[s]?).getD default

/-- A realm. -/
def realm (h : Heap) (r : RealmRef) : Realm := (h.realms[r]?).getD default

/-- Changes an object. -/
def modifyObject (h : Heap) (r : Ref) (f : Object → Object) : Heap :=
  { h with objects := h.objects.modify r f }

/-- Changes a scope. -/
def modifyScope (h : Heap) (s : ScopeRef) (f : Scope → Scope) : Heap :=
  { h with scopes := h.scopes.modify s f }

/-- Adds an object. -/
def addObject (h : Heap) (o : Object) : Ref × Heap :=
  (h.objects.size, { h with objects := h.objects.push o })

/-- Adds a scope. -/
def addScope (h : Heap) (s : Scope) : ScopeRef × Heap :=
  (h.scopes.size, { h with scopes := h.scopes.push s })

end Heap
end LoadHook.Script
