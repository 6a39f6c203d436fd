import LoadHook.Proofs.Script.Property

/-!
# Fences around a part of the heap

A script reaches what its values and scopes lead to, and nothing else. A fence keeps some objects
and scopes out of its reach: nothing outside of the fence leads to them, and no code runs for the
realms that they belong to. `Sealed` says that a heap is divided so. It stays so under every change
that is made to objects and scopes outside of the fence with values from outside, and the objects
behind the fence stay as they are.
-/
namespace LoadHook.Script

/-- What lies behind a fence: objects, which are kept as they are, scopes, and the realms for which
no code runs. The global objects of these realms lie behind it too; they show data only, none of
which is an object behind it. Only what was in the heap when the fence was put up lies behind it.
Functions that load modules take specifiers from some directories only. -/
structure Fence where
  barred : Ref → Prop
  barredScope : ScopeRef → Prop
  closed : RealmRef → Prop
  kept : Ref → Object
  global : RealmRef → Ref
  dirs : Path → Prop
  size : Nat
  scopeSize : Nat
  lt_size : ∀ r, barred r → r < size
  lt_scopeSize : ∀ s, barredScope s → s < scopeSize
  barred_global : ∀ m, closed m → barred (global m)
  shown : ∀ m, closed m → ∀ k p, (kept (global m)).own k = some p → p.enumerable →
    ∃ v w, p.content = .data v w ∧ ∀ r, v.ref? = some r → ¬ barred r

namespace Fence

variable (F : Fence)

/-! ## What leads to nothing behind the fence -/

/-- An object lies outside of the fence. -/
def Free (r : Ref) : Prop := ¬ F.barred r

/-- So does a scope. -/
def FreeScope (s : ScopeRef) : Prop := ¬ F.barredScope s

/-- A value is no object behind the fence. -/
def FreeValue : Value → Prop
  | .obj r => F.Free r
  | _ => True

/-- If there is an object, it lies outside of the fence. -/
def FreeRef? (o : Option Ref) : Prop := ∀ r, o = some r → F.Free r

/-- If there is a value, it is no object behind the fence. -/
def FreeValue? (o : Option Value) : Prop := ∀ v, o = some v → F.FreeValue v

/-- None of some values is an object behind the fence. -/
def FreeValues (vs : List Value) : Prop := ∀ v ∈ vs, F.FreeValue v

/-- None of the elements of an array, where there are any, is an object behind the fence. -/
def FreeItems (vs : List (Option Value)) : Prop := ∀ v ∈ vs, F.FreeValue? v

/-- A property leads to nothing behind the fence. -/
def Clean : Content → Prop
  | .data v _ => F.FreeValue v
  | .accessor g s => F.FreeRef? g ∧ F.FreeRef? s

/-- If there is a property, it leads to nothing behind the fence. -/
def Clean? (o : Option Property) : Prop := ∀ p, o = some p → F.Clean p.content

structure CleanClosure (c : Closure) : Prop where
  scope : F.FreeScope c.scope
  realm : ¬ F.closed c.realm
  home : F.FreeRef? c.home
  fields : ∀ e ∈ c.fields, F.Free e.2

/-- A native function makes no code for a realm behind the fence, or for one that does not come
before `n`, and loads modules from the given directories only. -/
def CleanNative (n : Nat) : Native → RealmRef → Prop
  | .require dir, _ => F.dirs dir
  | .maker .function, realm => ¬ F.closed realm ∧ realm < n
  | _, _ => True

def CleanKind (n : Nat) : Kind → Prop
  | .closure c => F.CleanClosure c
  | .native f realm => F.CleanNative n f realm
  | .bound target this args => F.Free target ∧ F.FreeValue this ∧ F.FreeValues args
  | _ => True

/-- Properties lead to nothing behind the fence. -/
def CleanProps (props : List (Key × Property)) : Prop := ∀ e ∈ props, F.Clean e.2.content

/-- An object leads to nothing behind the fence. -/
structure CleanObject (n : Nat) (o : Object) : Prop where
  kind : F.CleanKind n o.kind
  proto : F.FreeRef? o.proto
  props : F.CleanProps o.props

def FreeReceiver : Receiver → Prop
  | .value v => F.FreeValue v
  | _ => True

def CleanBinding (b : Binding) : Prop := F.FreeValue? b.value

/-- A scope leads to nothing behind the fence. -/
structure CleanScope (s : Scope) : Prop where
  bindings : ∀ e ∈ s.bindings, F.CleanBinding e.2
  object : F.FreeRef? s.object
  parent : ∀ up, s.parent = some up → F.FreeScope up
  receiver : F.FreeReceiver s.receiver
  callee : F.FreeRef? s.callee
  newTarget : F.FreeValue s.newTarget

/-- The objects that stand above the objects of a realm lie outside of the fence. -/
structure FreeRealm (r : Realm) : Prop where
  objectProto : F.Free r.objectProto
  functionProto : F.Free r.functionProto
  arrayProto : F.Free r.arrayProto
  stringProto : F.Free r.stringProto
  numberProto : F.Free r.numberProto
  booleanProto : F.Free r.booleanProto
  errorProtos : ∀ e ∈ r.errorProtos, F.Free e.2

/-- Nothing outside of the fence leads to what lies behind it, in a heap of at least `n` realms. -/
structure Sealed (n : Nat) (h : Heap) : Prop where
  size : F.size ≤ h.objects.size
  scopeSize : F.scopeSize ≤ h.scopes.size
  realmSize : n ≤ h.realms.size
  kept : ∀ r, F.barred r → h.object r = F.kept r
  object : ∀ r, F.Free r → F.CleanObject h.realms.size (h.object r)
  scope : ∀ s, F.FreeScope s → F.CleanScope (h.scope s)
  realm : ∀ m, F.FreeRealm (h.realm m)
  global : ∀ m, ¬ F.closed m → F.Free (h.realm m).global
  lexical : ∀ m, ¬ F.closed m → m < h.realms.size → F.FreeScope (h.realm m).lexical
  inside : ∀ m, F.closed m → m < h.realms.size
  shut : ∀ m, F.closed m → (h.realm m).global = F.global m
  completion : F.FreeValue h.completion

variable {F}

/-! ## Simple facts -/

@[simp] theorem freeValue_obj {r : Ref} : F.FreeValue (.obj r) ↔ F.Free r := .rfl
@[simp] theorem freeValue_undefined : F.FreeValue .undefined := trivial
@[simp] theorem freeValue_null : F.FreeValue .null := trivial
@[simp] theorem freeValue_bool {b : Bool} : F.FreeValue (.bool b) := trivial
@[simp] theorem freeValue_num {x : Float} : F.FreeValue (.num x) := trivial
@[simp] theorem freeValue_str {s : Text.Utf16} : F.FreeValue (.str s) := trivial
@[simp] theorem freeValue_text {s : String} : F.FreeValue (.text s) := trivial
@[simp] theorem freeValue_nat {n : Nat} : F.FreeValue (.nat n) := trivial

@[simp] theorem freeReceiver_value {v : Value} :
    F.FreeReceiver (.value v) ↔ F.FreeValue v := .rfl
@[simp] theorem freeReceiver_unset : F.FreeReceiver .unset := trivial

@[simp] theorem freeRef?_none : F.FreeRef? none := nofun
@[simp] theorem freeRef?_some {r : Ref} : F.FreeRef? (some r) ↔ F.Free r :=
  ⟨fun h => h r rfl, fun h _ e => Option.some.inj e ▸ h⟩
@[simp] theorem freeValue?_none : F.FreeValue? none := nofun
@[simp] theorem freeValue?_some {v : Value} : F.FreeValue? (some v) ↔ F.FreeValue v :=
  ⟨fun h => h v rfl, fun h _ e => Option.some.inj e ▸ h⟩
@[simp] theorem freeValues_nil : F.FreeValues [] := nofun
@[simp] theorem freeValues_cons {v : Value} {vs : List Value} :
    F.FreeValues (v :: vs) ↔ F.FreeValue v ∧ F.FreeValues vs := List.forall_mem_cons
@[simp] theorem freeValues_append {us vs : List Value} :
    F.FreeValues (us ++ vs) ↔ F.FreeValues us ∧ F.FreeValues vs := List.forall_mem_append
@[simp] theorem clean?_none : F.Clean? none := nofun
@[simp] theorem clean?_some {p : Property} : F.Clean? (some p) ↔ F.Clean p.content :=
  ⟨fun h => h p rfl, fun h _ e => Option.some.inj e ▸ h⟩

@[simp] theorem clean_data {v : Value} {w : Bool} : F.Clean (.data v w) ↔ F.FreeValue v := .rfl
@[simp] theorem clean_accessor {g s : Option Ref} :
    F.Clean (.accessor g s) ↔ F.FreeRef? g ∧ F.FreeRef? s := .rfl
@[simp] theorem clean_plain {v : Value} : F.Clean (Property.plain v).content ↔ F.FreeValue v := .rfl
@[simp] theorem clean_hidden {v : Value} :
    F.Clean (Property.hidden v).content ↔ F.FreeValue v := .rfl

@[simp] theorem cleanProps_nil : F.CleanProps [] := nofun
@[simp] theorem cleanProps_cons {e : Key × Property} {rest : List (Key × Property)} :
    F.CleanProps (e :: rest) ↔ F.Clean e.2.content ∧ F.CleanProps rest :=
  List.forall_mem_cons
@[simp] theorem cleanProps_append {ps qs : List (Key × Property)} :
    F.CleanProps (ps ++ qs) ↔ F.CleanProps ps ∧ F.CleanProps qs :=
  List.forall_mem_append

theorem FreeValue?.getD {o : Option Value} (ho : F.FreeValue? o) :
    F.FreeValue (o.getD .undefined) := by
  cases o with
  | none => trivial
  | some v => exact ho v rfl

/-- What is made of something that may be missing is free if it always is. -/
theorem freeValue_getD_map {α : Type} {o : Option α} {f : α → Value} {v : Value}
    (hf : ∀ a, F.FreeValue (f a)) (hv : F.FreeValue v) : F.FreeValue ((o.map f).getD v) := by
  cases o with
  | none => exact hv
  | some a => exact hf a

theorem FreeValues.drop {vs : List Value} (hvs : F.FreeValues vs) (n : Nat) :
    F.FreeValues (vs.drop n) := fun v hv => hvs v (List.mem_of_mem_drop hv)

theorem FreeValues.tail {vs : List Value} (hvs : F.FreeValues vs) : F.FreeValues vs.tail :=
  fun v hv => hvs v (List.mem_of_mem_tail hv)

/-- An element of a list is free, and so is what stands for one that is missing. -/
theorem FreeValues.getD {vs : List Value} (hvs : F.FreeValues vs) (i : Nat) :
    F.FreeValue (vs.getD i .undefined) := by
  rw [List.getD_eq_getElem?_getD]
  exact FreeValue?.getD fun v hv => hvs v (List.mem_of_getElem? hv)

@[simp] theorem freeItems_nil : F.FreeItems [] := nofun
@[simp] theorem freeItems_cons {v : Option Value} {vs : List (Option Value)} :
    F.FreeItems (v :: vs) ↔ F.FreeValue? v ∧ F.FreeItems vs := List.forall_mem_cons
@[simp] theorem freeItems_append {us vs : List (Option Value)} :
    F.FreeItems (us ++ vs) ↔ F.FreeItems us ∧ F.FreeItems vs := List.forall_mem_append
@[simp] theorem freeItems_map_some {vs : List Value} :
    F.FreeItems (vs.map some) ↔ F.FreeValues vs := by simp [FreeItems, FreeValues]

namespace FreeItems

variable {vs : List (Option Value)}

/-- Some of the elements, in any order. -/
theorem subset {us : List (Option Value)} (hvs : F.FreeItems vs) (h : us ⊆ vs) : F.FreeItems us :=
  fun v hv => hvs v (h hv)

/-- The elements that are there. -/
theorem present (hvs : F.FreeItems vs) : F.FreeValues (vs.filterMap id) := by
  intro v hv
  obtain ⟨o, ho, rfl⟩ := List.mem_filterMap.mp hv
  exact freeValue?_some.mp (hvs _ ho)

end FreeItems

/-- Whatever comes after the heap that the fence was put up in lies outside. -/
theorem free_of_size_le {r : Ref} (hr : F.size ≤ r) : F.Free r :=
  fun h => Nat.not_lt_of_le hr (F.lt_size r h)

theorem freeScope_of_le {s : ScopeRef} (hs : F.scopeSize ≤ s) : F.FreeScope s :=
  fun h => Nat.not_lt_of_le hs (F.lt_scopeSize s h)

theorem CleanNative.mono {n m : Nat} {f : Native} {realm : RealmRef}
    (hf : F.CleanNative n f realm) (h : n ≤ m) : F.CleanNative m f realm := by
  unfold CleanNative at hf ⊢
  split at hf
  · exact hf
  · exact ⟨hf.1, Nat.lt_of_lt_of_le hf.2 h⟩
  · trivial

theorem CleanKind.mono {n m : Nat} {k : Kind} (hk : F.CleanKind n k) (h : n ≤ m) :
    F.CleanKind m k := by
  cases k with
  | native f realm => exact CleanNative.mono hk h
  | _ => exact hk

theorem CleanObject.mono {n m : Nat} {o : Object} (ho : F.CleanObject n o) (h : n ≤ m) :
    F.CleanObject m o := ⟨ho.kind.mono h, ho.proto, ho.props⟩

@[simp] theorem cleanScope_default : F.CleanScope default :=
  ⟨nofun, nofun, nofun, trivial, nofun, trivial⟩

namespace Sealed

variable {n m : Nat} {h : Heap} {r : Ref} {o : Object}

/-- The heap has as many realms as it has. -/
theorem grown (hs : F.Sealed n h) : F.Sealed h.realms.size h :=
  { hs with realmSize := Nat.le_refl _ }

theorem mono (hs : F.Sealed n h) (hm : m ≤ n) : F.Sealed m h :=
  { hs with realmSize := Nat.le_trans hm hs.realmSize }

/-- A new object lies outside of the fence. -/
theorem free_new (hs : F.Sealed n h) : F.Free h.objects.size := free_of_size_le hs.size

theorem freeScope_new (hs : F.Sealed n h) : F.FreeScope h.scopes.size :=
  freeScope_of_le hs.scopeSize

/-- Objects outside of the fence may be changed, and objects may be added. -/
theorem withObjects {objects : Array Object} (hs : F.Sealed n h)
    (hsize : h.objects.size ≤ objects.size)
    (hobject : ∀ r, ({ h with objects } : Heap).object r = h.object r ∨
      F.Free r ∧ F.CleanObject h.realms.size (({ h with objects } : Heap).object r)) :
    F.Sealed n { h with objects } where
  size := Nat.le_trans hs.size hsize
  scopeSize := hs.scopeSize
  realmSize := hs.realmSize
  kept r hr := by
    rcases hobject r with he | ⟨hfree, -⟩
    · rw [he, hs.kept r hr]
    · exact absurd hr hfree
  object r hr := by
    rcases hobject r with he | ⟨-, hclean⟩
    · exact he ▸ hs.object r hr
    · exact hclean
  scope := hs.scope
  realm := hs.realm
  global := hs.global
  lexical := hs.lexical
  inside := hs.inside
  shut := hs.shut
  completion := hs.completion

theorem modifyObject {f : Object → Object} (hs : F.Sealed n h) (hr : F.Free r)
    (hf : F.CleanObject h.realms.size (f (h.object r))) : F.Sealed n (h.modifyObject r f) := by
  refine hs.withObjects (Nat.le_of_eq (Heap.size_modifyObject f).symm) fun s => ?_
  by_cases hsr : s = r
  · subst hsr
    by_cases hlt : s < h.objects.size
    · exact .inr ⟨hr, (Heap.object_modifyObject_self f hlt).symm ▸ hf⟩
    · refine .inl ?_
      simp [Heap.object, Array.getElem?_modify, Array.getElem?_eq_none (Nat.le_of_not_lt hlt)]
  · exact .inl (Heap.object_modifyObject_of_ne f hsr)

theorem addObject (hs : F.Sealed n h) (ho : F.CleanObject h.realms.size o) :
    F.Sealed n (h.addObject o).2 := by
  refine hs.withObjects (by simp) fun s => ?_
  by_cases hsize : s = h.objects.size
  · subst hsize
    exact .inr ⟨hs.free_new, Heap.object_addObject_self.symm ▸ ho⟩
  · refine .inl ?_
    simp [Heap.object, Array.getElem?_push, hsize]

/-- Scopes outside of the fence may be changed, and scopes may be added. -/
theorem withScopes {scopes : Array Scope} (hs : F.Sealed n h) (hsize : h.scopes.size ≤ scopes.size)
    (hscope : ∀ s, ({ h with scopes } : Heap).scope s = h.scope s ∨
      F.CleanScope (({ h with scopes } : Heap).scope s)) : F.Sealed n { h with scopes } :=
  { hs with
    scopeSize := Nat.le_trans hs.scopeSize hsize
    scope := fun s hfree => (hscope s).elim (fun he => he ▸ hs.scope s hfree) id }

theorem modifyScope {s : ScopeRef} {f : Scope → Scope} (hs : F.Sealed n h)
    (hf : F.CleanScope (f (h.scope s))) : F.Sealed n (h.modifyScope s f) := by
  refine hs.withScopes (by simp) fun t => ?_
  simp only [Heap.scope, Array.getElem?_modify]
  by_cases hst : s = t
  · subst hst
    cases hget : h.scopes[s]? with
    | none => exact .inl (by simp)
    | some scope =>
      refine .inr ?_
      simpa [Heap.scope, hget] using hf
  · exact .inl (by simp [hst])

theorem addScope {s : Scope} (hs : F.Sealed n h) (hclean : F.CleanScope s) :
    F.Sealed n (h.addScope s).2 := by
  refine hs.withScopes (by simp) fun t => ?_
  simp only [Heap.scope, Array.getElem?_push]
  split
  · exact .inr hclean
  · exact .inl rfl

theorem withCompletion {v : Value} (hs : F.Sealed n h) (hv : F.FreeValue v) :
    F.Sealed n { h with completion := v } := { hs with completion := hv }

end Sealed
end Fence
end LoadHook.Script
