import LoadHook.Script.Scope

/-!
# Places and patterns

What can be assigned to: a name, a property, or a property looked up above the object in
whose methods the code stands. A pattern takes a value apart and assigns its parts. Here
is also how the elements of a list are walked through.
-/
namespace LoadHook.Script

/-- A place that can be read and assigned to. -/
inductive Reference where
  | name (k : Key)
  | property (base : Value) (k : Key)
  | above (this : Value) (start : Option Ref) (k : Key)

/-- An expression without the parentheses around it. -/
def Expr.inGroup : Expr → Expr
  | .group e => e
  | e => e

namespace Machine

variable (m : Machine) (ctx : Context)

/-! ## Elements of lists -/

/-- The units of a text cut into characters. -/
def characters : Text.Utf16 → List Text.Utf16
  | [] => []
  | [u] => [[u]]
  | u :: v :: rest =>
    if Text.Utf16.isLead u && Text.Utf16.isTrail v then [u, v] :: characters rest
    else [u] :: characters (v :: rest)

/-- The element of a list at an index; none at its end. -/
def element? (realm : RealmRef) (v : Value) (i : Nat) : Eval (Option Value) := do
  match v with
  | .str s => return ((characters s)[i]?).map .str
  | .obj r =>
    match (← Eval.read (·.object r)).kind with
    | .array | .arguments =>
      if i < (← m.lengthOf realm v) then return some (← m.getRef realm r (natKey i))
      else return none
    | .string s => return ((characters s)[i]?).map .str
    | _ => typeError realm "object is not iterable"
  | _ => typeError realm "value is not iterable"

/-- The elements of a list. -/
def elements (realm : RealmRef) (v : Value) : Eval (List Value) :=
  Eval.loop Eval.roundLimit (fun (read : List Value × Nat) => do
    match ← m.element? realm v read.2 with
    | some x => return .inl (x :: read.1, read.2 + 1)
    | none => return .inr read.1.reverse) ([], 0)

/-- The own enumerable properties of a value that are not left out. -/
def ownEnumerable (realm : RealmRef) (v : Value) (except : List Key) :
    Eval (List (Key × Value)) := do
  if !v.isPresent then return []
  let r ← toObject realm v
  let keys ← Eval.read fun h => ((h.object r).ownKeys).filter fun k =>
    !except.contains k && ((h.own r k).map Property.enumerable).getD false
  Eval.collect (fun k => do return (k, ← m.getRef realm r k)) keys

/-! ## Places -/

/-- Where the code's methods look for what they override. -/
def aboveHome (ctx : Context) : Eval (Option Ref) :=
  Eval.read fun h =>
    (h.scope (h.receiverScope ctx.scope)).callee.bind fun callee =>
      match (h.object callee).kind with
      | .closure c => c.home.bind fun home => (h.object home).proto
      | _ => none

/-- The place that an expression names. -/
def reference (e : Expr) : Eval Reference := do
  match e.inGroup with
  | .name n => return .name n
  | .member b k => return .property (← m.expr ctx b) k
  | .index b i => do
    let base ← m.expr ctx b
    return .property base (← m.toKey ctx.realm (← m.expr ctx i))
  | .superMember k => do
    let this ← receiver ctx
    return .above this (← aboveHome ctx) (← m.toKey ctx.realm (← m.expr ctx k))
  | _ => raise ctx.realm .syntactic "invalid assignment left-hand side"

/-- The value at a place. -/
def load : Reference → Eval Value
  | .name k => m.name ctx k
  | .property base k => m.get ctx.realm base k
  | .above this (some start) k => do
    m.valueOf ctx.realm this (← Eval.read (·.find start k))
  | .above _ none k => m.get ctx.realm .undefined k

/-- Assigns a value to a place. -/
def store (place : Reference) (v : Value) : Eval Unit :=
  match place with
  | .name k => m.assignName ctx k v
  | .property base k => m.assign ctx.realm ctx.strict base k v
  | .above this _ k => m.assign ctx.realm ctx.strict this k v

/-! ## Patterns -/

/-- Gives a part of a value to a target, or the target's default if there is no value. -/
def bindTarget (mode : Binding.Mode) (target : Target) (v : Value) : Eval Unit := do
  match target with
  | .hole => return ()
  | .bind p none => m.bind ctx mode p v
  | .bind p (some e) =>
    match v with
    | .undefined => m.bind ctx mode p (← m.expr ctx e)
    | v => m.bind ctx mode p v

/-- Gives values to targets in order. -/
def bindTargets (mode : Binding.Mode) : List Target → List Value → Eval Unit
  | [], _ => pure ()
  | t :: ts, vs => do
    m.bindTarget ctx mode t (vs.headD .undefined)
    bindTargets mode ts vs.tail

/-- Gives the properties of a value to the fields of a pattern; tells the keys of those. -/
def bindFields (mode : Binding.Mode) (v : Value) (read : List Key) : List Field → Eval (List Key)
  | [] => pure read
  | .mk name target :: rest => do
    let k ← m.toKey ctx.realm (← m.expr ctx name)
    m.bindTarget ctx mode target (← m.get ctx.realm v k)
    bindFields mode v (k :: read) rest

/-- Takes a value apart. -/
def bindPattern (mode : Binding.Mode) (p : Pattern) (v : Value) : Eval Unit := do
  match p with
  | .name k =>
    match mode with
    | .declare => Eval.change (·.setSlot ctx.scope k v)
    | .assign => m.assignName ctx k v
  | .place e => m.store ctx (← m.reference ctx e) v
  | .array items rest =>
    let vs ← m.elements ctx.realm v
    m.bindTargets ctx mode items vs
    match rest with
    | some p => m.bind ctx mode p (← newArray ctx.realm (vs.drop items.length))
    | none => return ()
  | .object fields rest =>
    if !v.isPresent then typeError ctx.realm "cannot destructure this value"
    let read ← m.bindFields ctx mode v [] fields
    match rest with
    | some p => m.bind ctx mode p (← newObject ctx.realm (← m.ownEnumerable ctx.realm v read))
    | none => return ()

end Machine
end LoadHook.Script
