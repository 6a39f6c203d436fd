import LoadHook.Script.Reference

/-!
# Functions and classes

A function keeps the scope in which it was made. A call runs its body in a new scope with
the parameters, the variables and `this`; construction makes the object first, except in a
class that extends another, where the constructor of the parent makes it.
-/
namespace LoadHook.Script

namespace Heap

/-- Adds a function. A plain one has an object for what it constructs. -/
def addClosure (h : Heap) (c : Closure) : Ref × Heap :=
  let realm := h.realm c.realm
  let (f, h) := h.addObject ⟨.closure c, some realm.functionProto, true,
    [(lengthKey, ⟨.data (.nat c.func.arity) false, false, true⟩),
     (key "name", ⟨.data (.str c.func.name) false, false, true⟩)]⟩
  match c.func.kind with
  | .plain =>
    let (proto, h) := h.addObject ⟨.plain, some realm.objectProto, true,
      [(key "constructor", .hidden (.obj f))]⟩
    (f, h.putOwn f (key "prototype") ⟨.data (.obj proto) true, false, false⟩)
  | _ => (f, h)

/-- The function made from a script that an object is. -/
def closure? (h : Heap) (r : Ref) : Option Closure :=
  match (h.object r).kind with
  | .closure c => some c
  | _ => none

/-- The realm of a function, at most `fuel` bound functions deep. -/
def realmOf (h : Heap) (fuel : Nat) (fallback : RealmRef) (r : Ref) : RealmRef :=
  match fuel, (h.object r).kind with
  | _, .closure c => c.realm
  | _, .native _ realm => realm
  | n + 1, .bound target _ _ => realmOf h n fallback target
  | _, _ => fallback

/-- Whether an object can construct others, at most `fuel` bound functions deep. -/
def constructs (h : Heap) (fuel : Nat) (r : Ref) : Bool :=
  match fuel, (h.object r).kind with
  | _, .closure c =>
    match c.func.kind with
    | .plain | .constructor _ => true
    | .arrow | .method => false
  | _, .native (.maker _) _ => true
  | n + 1, .bound target _ _ => constructs h n target
  | _, _ => false

/-- Whether a value can construct objects. -/
def isConstructor (h : Heap) : Value → Bool
  | .obj r => h.constructs h.objects.size r
  | _ => false

end Heap

namespace Machine

variable (m : Machine) (ctx : Context)

/-! ## Making functions -/

/-- A function for a tree, in the scope of the code. A named one knows itself by its name. -/
def makeFunction (named : Bool) (home : Option Ref) (f : Func) : Eval Ref :=
  Eval.update fun h =>
    if named && !f.name.isEmpty then
      let (s, h) := h.addInner ctx.scope
      let (r, h) := h.addClosure ⟨f, s, ctx.realm, home, []⟩
      (r, h.bind s f.name ⟨some (.obj r), .own⟩)
    else h.addClosure ⟨f, ctx.scope, ctx.realm, home, []⟩

/-- Makes the functions that statements declare. -/
def declareFunctions (body : List Stmt) : Eval Unit :=
  Eval.each (fun f => do
    let r ← makeFunction ctx false none f
    Eval.change (·.setSlot ctx.scope f.name (.obj r))) (functionsOf body)

/-- Prepares the scope of the code for statements. -/
def prepare (body : List Stmt) : Eval Unit := do
  Eval.change (·.announce ctx.scope (lexicalNames body))
  declareFunctions ctx body

/-- Runs statements until one does not end normally. -/
def sequence : List Stmt → Eval Completion
  | [] => pure .normal
  | s :: rest => do
    match ← m.stmt ctx s with
    | .normal => sequence rest
    | c => return c

/-! ## Calling functions -/

/-- What `this` is in a call: in sloppy mode it is always an object. -/
def receiverOf (c : Closure) (v : Value) : Eval Receiver := do
  match c.func.kind with
  | .arrow => return .outer
  | _ =>
    if c.func.strict then return .value v
    else match v with
      | .undefined | .null => return .value (.obj (← Eval.read fun h => (h.realm c.realm).global))
      | .obj _ => return .value v
      | v => return .value (.obj (← toObject c.realm v))

/-- An object that holds the arguments of a call. -/
def argumentsObject (realm : RealmRef) (args : List Value) : Eval Value :=
  Eval.update fun h =>
    let elements := args.zipIdx.map fun (v, i) => (natKey i, Property.plain v)
    let (r, h) := h.addObject ⟨.arguments, some (h.realm realm).objectProto, true,
      (lengthKey, .hidden (.nat args.length)) :: elements⟩
    (.obj r, h)

/-- Runs the body of a function in a new scope; tells the scope and the value. -/
def runBody (r : Ref) (c : Closure) (receiver : Receiver) (newTarget : Value)
    (args : List Value) : Eval (ScopeRef × Value) := do
  let f := c.func
  let vars := f.vars.map fun k => (k, (⟨some .undefined, .mutable⟩ : Binding))
  let scope ← Eval.update (·.addScope
    { bindings := vars, object := none, parent := some c.scope, receiver := receiver
      callee := some r, newTarget := newTarget })
  let ctx : Context := ⟨scope, c.realm, scope, f.raised, f.strict, false, []⟩
  match f.kind with
  | .arrow => pure ()
  | _ =>
    let list ← argumentsObject c.realm args
    Eval.change (·.setSlot scope (key "arguments") list)
  m.bindTargets ctx .declare f.params args
  match f.rest with
  | some p => m.bind ctx .declare p (← newArray c.realm (args.drop f.params.length))
  | none => pure ()
  prepare ctx f.body
  match ← m.sequence ctx f.body with
  | .return v => return (scope, v)
  | _ => return (scope, .undefined)

/-- Calls a function made from a script. -/
def callClosure (realm : RealmRef) (r : Ref) (c : Closure) (this : Value) (args : List Value) :
    Eval Value := do
  match c.func.kind with
  | .constructor _ => typeError realm "class constructors must be invoked with 'new'"
  | _ => return (← m.runBody r c (← receiverOf c this) .undefined args).2

/-! ## Constructing objects -/

/-- The object above what a constructor makes, a realm's own being taken by default. -/
def protoFor (realm : RealmRef) (newTarget : Ref) (default : Realm → Ref) : Eval Ref := do
  match ← m.getRef realm newTarget (key "prototype") with
  | .obj proto => return proto
  | _ => Eval.read fun h => default (h.realm (h.realmOf h.objects.size realm newTarget))

/-- A new object for a constructor. -/
def newInstance (realm : RealmRef) (newTarget : Ref) : Eval Value := do
  let proto ← m.protoFor realm newTarget Realm.objectProto
  return .obj (← Eval.update (·.addPlain (some proto)))

/-- Adds what a class says of new objects to one. -/
def addFields (realm : RealmRef) (v : Value) (fields : List (Key × Ref)) : Eval Unit :=
  match v with
  | .obj r =>
    Eval.each (fun e => do
      let x ← m.call realm (.obj e.2) v []
      let _ ← Eval.update (·.define r e.1 (.ofProperty (.plain x)))) fields
  | _ => pure ()

/-- Constructs an object with a function made from a script. -/
def constructClosure (realm : RealmRef) (r : Ref) (c : Closure) (args : List Value)
    (newTarget : Ref) : Eval Value := do
  let target := Value.obj newTarget
  match c.func.kind with
  | .plain | .constructor false =>
    let v ← m.newInstance realm newTarget
    m.addFields c.realm v c.fields
    match (← m.runBody r c (.value v) target args).2 with
    | .obj x => return .obj x
    | _ => return v
  | .constructor true =>
    let (scope, v) ← m.runBody r c .unset target args
    match v with
    | .obj x => return .obj x
    | _ =>
      match (← Eval.read (·.scope scope)).receiver with
      | .value v => return v
      | _ => raise c.realm .reference "this is not initialized"
  | .arrow | .method => typeError realm "not a constructor"

/-- Calls the constructor of the parent class, which makes `this`. -/
def callParent (args : List Value) : Eval Value := do
  let scope ← Eval.read (·.receiverScope ctx.scope)
  let (s, parent, fields) ← Eval.read fun h =>
    let s := h.scope scope
    (s, s.callee.bind fun r => (h.object r).proto,
      ((s.callee.bind h.closure?).map Closure.fields).getD [])
  match parent, s.newTarget with
  | some parent, .obj newTarget =>
    if !(← Eval.read (·.isConstructor (.obj parent))) then
      typeError ctx.realm "parent class must be constructor"
    let v ← m.construct ctx.realm parent args newTarget
    match (← Eval.read (·.scope scope)).receiver with
    | .unset =>
      Eval.change (·.modifyScope scope fun s => { s with receiver := .value v })
      m.addFields ctx.realm v fields
      return v
    | _ => raise ctx.realm .reference "'this' can be initialized only once"
  | _, _ => typeError ctx.realm "parent class must be constructor"

/-! ## Members and classes -/

/-- Defines a member that is a function. -/
def defineMethod (target : Ref) (enumerable : Bool) (k : Key) (kind : MemberKind) (f : Func) :
    Eval Unit := do
  let name := match kind with
    | .value => k
    | .getter => key "get " ++ k
    | .setter => key "set " ++ k
  let r ← makeFunction ctx false (some target) (f.withName name)
  let d : Descriptor := match kind with
    | .value => { value := some (.obj r), writable := some true }
    | .getter => { get := some (some r) }
    | .setter => { set := some (some r) }
  let _ ← Eval.update (·.define target k
    { d with enumerable := some enumerable, configurable := some true })

/-- What stands above the objects of a class, and above the class. -/
def classParents (parent : Option Expr) : Eval (Option Ref × Ref) := do
  let realm ← Eval.read (·.realm ctx.realm)
  match parent with
  | none => return (some realm.objectProto, realm.functionProto)
  | some e =>
    match ← m.expr ctx e with
    | .null => return (none, realm.functionProto)
    | .obj r =>
      if !(← Eval.read (·.isConstructor (.obj r))) then
        typeError ctx.realm "parent class must be constructor"
      match ← m.getRef ctx.realm r (key "prototype") with
      | .obj proto => return (some proto, r)
      | .null => return (none, r)
      | _ => typeError ctx.realm "parent prototype must be an object or null"
    | _ => typeError ctx.realm "parent class must be constructor"

/-- Defines the members of a class; tells the fields of the class and of its objects. -/
def classMembers (f proto : Ref) : List Member → Eval (List (Key × Ref) × List (Key × Ref))
  | [] => pure ([], [])
  | .method static name kind func :: rest => do
    let k ← m.toKey ctx.realm (← m.expr ctx name)
    defineMethod ctx (if static then f else proto) false k kind func
    classMembers f proto rest
  | .field static name (.function _ func) :: rest => do
    let k ← m.toKey ctx.realm (← m.expr ctx name)
    let value ← makeFunction ctx false (some (if static then f else proto)) func
    let (own, fields) ← classMembers f proto rest
    return if static then ((k, value) :: own, fields) else (own, (k, value) :: fields)
  | _ :: rest => classMembers f proto rest

/-- The value of a class. -/
def classValue (c : ClassTree) : Eval Value := do
  let .mk name parent constructor members := c
  let inside ← inner ctx
  let inside := { inside with strict := true }
  if !name.isEmpty then Eval.change (·.announce inside.scope [(name, true)])
  let (aboveObjects, aboveClass) ← m.classParents inside parent
  let proto ← Eval.update (·.addPlain aboveObjects)
  let f ← makeFunction inside false (some proto) constructor
  Eval.change fun h =>
    let h := h.modifyObject f fun o => { o with proto := some aboveClass }
    let h := h.putOwn f (key "prototype") ⟨.data (.obj proto) false, false, false⟩
    h.putOwn proto (key "constructor") (.hidden (.obj f))
  let (own, fields) ← m.classMembers inside f proto members
  Eval.change (·.modifyObject f fun o => match o.kind with
    | .closure c => { o with kind := .closure { c with fields := fields } }
    | _ => o)
  if !name.isEmpty then Eval.change (·.setSlot inside.scope name (.obj f))
  m.addFields ctx.realm (.obj f) own
  return .obj f

end Machine
end LoadHook.Script
