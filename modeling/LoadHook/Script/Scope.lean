import LoadHook.Script.Convert

/-!
# Names in scopes

A name is looked up in the scope in which it stands and then in the scopes around it; the
outermost scope has the properties of the global object as its names. A name that is
declared further down has no value yet, and reading it is an error.
-/
namespace LoadHook.Script

/-- Where a name leads. -/
inductive Place where
  | slot (s : ScopeRef) (b : Binding)
  | property (r : Ref)
  | nowhere

namespace Heap

/-- Where a name leads from a scope, at most `fuel` scopes up. -/
def placeFrom (h : Heap) (fuel : Nat) (s : ScopeRef) (k : Key) : Place :=
  match fuel with
  | 0 => .nowhere
  | n + 1 =>
    let scope := h.scope s
    match scope.bindings.lookup k with
    | some b => .slot s b
    | none =>
      match scope.object.filter fun r => (h.find r k).isSome with
      | some r => .property r
      | none =>
        match scope.parent with
        | some up => placeFrom h n up k
        | none => .nowhere

/-- Where a name leads from a scope. -/
def place (h : Heap) (s : ScopeRef) (k : Key) : Place := h.placeFrom (h.scopes.size + 1) s k

/-- The innermost scope that says what `this` is, at most `fuel` scopes up. -/
def receiverFrom (h : Heap) (fuel : Nat) (s : ScopeRef) : ScopeRef :=
  match fuel with
  | 0 => s
  | n + 1 =>
    let scope := h.scope s
    match scope.receiver, scope.parent with
    | .outer, some up => receiverFrom h n up
    | _, _ => s

/-- The innermost scope that says what `this` is. -/
def receiverScope (h : Heap) (s : ScopeRef) : ScopeRef := h.receiverFrom (h.scopes.size + 1) s

/-- Binds a name in a scope, in the place of a binding of the same name. -/
def bind (h : Heap) (s : ScopeRef) (k : Key) (b : Binding) : Heap :=
  h.modifyScope s fun scope =>
    { scope with bindings := (k, b) :: scope.bindings.filter fun e => e.1 != k }

/-- Gives a name of a scope a value; a name that is not bound there becomes a variable. -/
def setSlot (h : Heap) (s : ScopeRef) (k : Key) (v : Value) : Heap :=
  let access := match (h.scope s).bindings.lookup k with
    | some b => b.access
    | none => .mutable
  h.bind s k ⟨some v, access⟩

/-- Binds names that have no value yet. -/
def announce (h : Heap) (s : ScopeRef) (names : List (Key × Bool)) : Heap :=
  names.foldl (fun h n => h.bind s n.1 ⟨none, if n.2 then .constant else .mutable⟩) h

/-- Adds an empty scope inside another. -/
def addInner (h : Heap) (parent : ScopeRef) : ScopeRef × Heap :=
  h.addScope { (default : Scope) with parent := some parent }

end Heap

/-- Throws the error for a name that leads nowhere. -/
def undefinedName {α : Type} (realm : RealmRef) (k : Key) : Eval α :=
  raise realm .reference (keyText k ++ " is not defined")

/-- Throws the error for a name that has no value yet. -/
def unsetName {α : Type} (realm : RealmRef) (k : Key) : Eval α :=
  raise realm .reference (keyText k ++ " is not initialized")

namespace Machine

variable (m : Machine) (ctx : Context)

/-- The value of a name; none if it leads nowhere. -/
def name? (k : Key) : Eval (Option Value) := do
  match ← Eval.read (·.place ctx.scope k) with
  | .slot _ ⟨some v, _⟩ => return some v
  | .slot _ ⟨none, _⟩ => unsetName ctx.realm k
  | .property r => return some (← m.getRef ctx.realm r k)
  | .nowhere => return none

/-- The value of a name. -/
def name (k : Key) : Eval Value := do
  match ← m.name? ctx k with
  | some v => return v
  | none => undefinedName ctx.realm k

/-- Assigns to a name. A name that leads nowhere becomes a property of the global object, or is
an error in strict mode. -/
def assignName (k : Key) (v : Value) : Eval Unit := do
  match ← Eval.read (·.place ctx.scope k) with
  | .slot _ ⟨none, _⟩ => unsetName ctx.realm k
  | .slot s ⟨_, .mutable⟩ => Eval.change (·.setSlot s k v)
  | .slot _ ⟨_, .own⟩ =>
    if ctx.strict then typeError ctx.realm ("'" ++ keyText k ++ "' is read-only")
  | .slot _ ⟨_, .constant⟩ => typeError ctx.realm ("'" ++ keyText k ++ "' is read-only")
  | .property r => m.assign ctx.realm ctx.strict (.obj r) k v
  | .nowhere =>
    if ctx.strict then undefinedName ctx.realm k
    else m.assign ctx.realm false (.obj (← Eval.read fun h => (h.realm ctx.realm).global)) k v

/-- Deletes a name; tells whether it is gone. Only properties of the global object can go. -/
def deleteName (k : Key) : Eval Bool := do
  match ← Eval.read (·.place ctx.scope k) with
  | .slot _ _ => return false
  | .property r => Eval.update (·.delete r k)
  | .nowhere => return true

/-- What `this` is. -/
def receiver : Eval Value := do
  let h ← Eval.read id
  match (h.scope (h.receiverScope ctx.scope)).receiver with
  | .value v => return v
  | .unset => raise ctx.realm .reference "this is not initialized"
  | .outer => return .undefined

/-- The context of an empty scope inside another. -/
def inner : Eval Context := do
  return { ctx with scope := ← Eval.update (·.addInner ctx.scope) }

end Machine
end LoadHook.Script
