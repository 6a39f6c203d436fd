import LoadHook.Proofs.Script.Property

/-!
# New realms

A realm is made above all objects of a heap: what was in the heap stays as it was. Its global
object can be assigned to, but for a few fixed names and for the name by which an object reaches
what stands above it. `Raised` is what holds of the heap from the moment that the realm is in it,
while its built-in objects are made and however its global object is assigned to afterwards.
-/
namespace LoadHook.Script

/-- The names of a new global object that cannot be assigned to. -/
def fixedNames : List Key := [key "undefined", key "NaN", key "Infinity"]

/-- The name by which an object reaches what stands above it. -/
def protoKey : Key := key "__proto__"

/-- The property that there is after a value is assigned, by the one that there was. -/
def Property.assigned (p : Option Property) (v : Value) : Property :=
  match p with
  | some q => { q with content := .data v true }
  | none => .plain v

/-- All properties but those of a few names are writable data. -/
def Writable (fixed : List Key) (props : List (Key × Property)) : Prop :=
  ∀ k p, findKey k props = some p → k ∉ fixed → ∃ v, p.content = .data v true

theorem Writable.putKey {fixed : List Key} {props : List (Key × Property)} {k : Key} {p : Property}
    (hw : Writable fixed props) (hp : k ∈ fixed ∨ ∃ v, p.content = .data v true) :
    Writable fixed (putKey k p props) := by
  intro l q hq hl
  by_cases hlk : l = k
  · subst hlk
    rw [findKey_putKey_self, Option.some.injEq] at hq
    exact hq ▸ hp.resolve_left hl
  · rw [findKey_putKey_of_ne hlk] at hq
    exact hw l q hq hl

/-- What is listed after a property was put is that property, or was listed before. -/
theorem mem_putKey {props : List (Key × Property)} {k : Key} {p : Property} {c : Key × Property}
    (hc : c ∈ putKey k p props) : c = (k, p) ∨ c ∈ props := by
  induction props with
  | nil => exact .inl (List.mem_singleton.mp hc)
  | cons q rest ih =>
    rw [putKey] at hc
    split at hc <;> rcases List.mem_cons.mp hc with rfl | hc
    · exact .inl rfl
    · exact .inr (List.mem_cons_of_mem q hc)
    · exact .inr List.mem_cons_self
    · exact (ih hc).imp_right (List.mem_cons_of_mem q)

namespace Heap

variable {h₀ h : Heap} {r : Realm} {s t g : Ref} {k : Key} {p : Property} {o : Object}
  {realm : RealmRef} {kind : Kind} {proto : Option Ref} {fixed : List Key}

/-! ## Objects that can be assigned to -/

/-- An object of a kind, below another one, all of whose properties but those of a few names are
writable data. -/
structure Open (h : Heap) (s : Ref) (kind : Kind) (proto : Option Ref) (fixed : List Key) :
    Prop where
  inside : s < h.objects.size
  shape : ∃ props, h.object s = ⟨kind, proto, true, props⟩ ∧ Writable fixed props

namespace Open

theorem addObject (ho : h.Open s kind proto fixed) (o : Object) :
    (h.addObject o).2.Open s kind proto fixed where
  inside := by simpa using Nat.lt_succ_of_lt ho.inside
  shape := by rw [object_addObject_of_lt ho.inside]; exact ho.shape

theorem modifyObject (ho : h.Open s kind proto fixed) (hst : s ≠ t) (f : Object → Object) :
    (h.modifyObject t f).Open s kind proto fixed where
  inside := by simpa using ho.inside
  shape := by rw [object_modifyObject_of_ne f hst]; exact ho.shape

theorem putOwn (ho : h.Open s kind proto fixed)
    (hp : s = t → k ∈ fixed ∨ ∃ v, p.content = .data v true) :
    (h.putOwn t k p).Open s kind proto fixed := by
  by_cases hst : s = t
  · subst hst
    obtain ⟨props, hobject, hw⟩ := ho.shape
    refine ⟨by simpa using ho.inside, putKey k p props, ?_, hw.putKey (hp rfl)⟩
    rw [object_putOwn_self ho.inside, hobject]
    rfl
  · exact ho.modifyObject hst _

theorem isArray (ho : h.Open s kind proto fixed) (hk : kind ≠ .array) :
    (h.object s).isArray = false := by
  obtain ⟨props, hobject, -⟩ := ho.shape
  rw [hobject, Object.isArray]
  cases kind <;> first | rfl | exact absurd rfl hk

/-- What is put into an object that is no text is found there, and nothing else changes. -/
theorem own_putOwn (ho : h.Open s kind proto fixed) (hk : ∀ t, kind ≠ .string t) (k l : Key)
    (p : Property) : (h.putOwn s k p).own s l = if l = k then some p else h.own s l := by
  obtain ⟨props, hobject, -⟩ := ho.shape
  have hown (ps : List (Key × Property)) :
      (⟨kind, proto, true, ps⟩ : Object).own l = findKey l ps := by
    cases kind <;> first | rfl | exact absurd rfl (hk _)
  rw [own, object_putOwn_self ho.inside, own, hobject, Object.put, hown, hown]
  split
  · next e => rw [e, findKey_putKey_self]
  · next hne => rw [findKey_putKey_of_ne hne]

/-- A property of an object that is no text is one of its list. -/
theorem content_of_own (ho : h.Open s kind proto fixed) (hk : ∀ s, kind ≠ .string s)
    (hp : h.own s k = some p) (hfixed : k ∉ fixed) : ∃ v, p.content = .data v true := by
  obtain ⟨props, hobject, hw⟩ := ho.shape
  refine hw k p ?_ hfixed
  rw [← hp, own, hobject]
  cases kind <;> first | rfl | exact absurd rfl (hk _)

end Open

/-! ## Names that cannot be assigned to -/

/-- No fixed name of an object can be assigned to. -/
def Locks (h : Heap) (g : Ref) : Prop :=
  ∀ k ∈ fixedNames, ∃ v e c, h.own g k = some ⟨.data v false, e, c⟩

namespace Locks

theorem addObject (hl : h.Locks g) (o : Object) : (h.addObject o).2.Locks g := by
  intro k hk
  obtain ⟨v, e, c, hown⟩ := hl k hk
  exact ⟨v, e, c, by rw [own, object_addObject_of_lt (lt_size_of_own hown), ← own, hown]⟩

theorem modifyObject (hl : h.Locks g) (hs : g ≠ s) (f : Object → Object) :
    (h.modifyObject s f).Locks g := by
  intro k hk
  rw [own, object_modifyObject_of_ne f hs]
  exact hl k hk

/-- A name that is not fixed may be put. -/
theorem putOwn (hl : h.Locks g) (hk : s = g → k ∉ fixedNames) (p : Property) :
    (h.putOwn s k p).Locks g := by
  intro l hl'
  obtain ⟨v, e, c, hown⟩ := hl l hl'
  refine ⟨v, e, c, ?_⟩
  by_cases hs : s = g
  · have hne : l ≠ k := fun hlk => hk hs (hlk ▸ hl')
    rw [own, hs, object_putOwn_self (lt_size_of_own hown), Object.own_put_of_ne hne, ← own, hown]
  · rw [own, object_putOwn_of_ne (Ne.symm hs), ← own, hown]

theorem giveFunctions (hl : h.Locks g) (fs : List BuiltIn)
    (hfs : s = g → ∀ f ∈ fs, key f.name ∉ fixedNames) (realm : RealmRef) (functionProto : Ref)
    (owner : Owner) : (h.giveFunctions realm functionProto s owner fs).Locks g := by
  simp only [Heap.giveFunctions]
  induction fs generalizing h with
  | nil => exact hl
  | cons f fs ih =>
    refine ih ?_ fun hs f hf => hfs hs f (List.mem_cons_of_mem _ hf)
    exact (hl.addObject _).putOwn (fun hs => hfs hs f List.mem_cons_self) _

theorem giveConstants (hl : h.Locks g) (hs : g ≠ s) (constants : List (String × Float)) :
    (h.giveConstants s constants).Locks g := by
  simp only [Heap.giveConstants]
  induction constants generalizing h with
  | nil => exact hl
  | cons c rest ih => exact ih (hl.putOwn (fun e => absurd e.symm hs) _)

theorem addHolder (hl : h.Locks r.global) (hs : r.global < h.objects.size) (realm : RealmRef)
    (owner : Owner) (name : String) (hname : key name ∉ fixedNames) (kind : Kind) :
    (h.addHolder realm r owner name kind).2.Locks r.global := by
  refine putOwn ?_ (fun _ => hname) _
  exact (hl.addObject _).giveFunctions _ (fun e => absurd e (Nat.ne_of_gt hs)) _ _ _

end Locks

/-! ## A realm that is being made -/

/-- All objects of a realm come after the first `n` ones, and its global object is not the one
above all plain objects. -/
structure Above (n : Nat) (r : Realm) : Prop where
  global : n ≤ r.global
  objectProto : n ≤ r.objectProto
  functionProto : n ≤ r.functionProto
  arrayProto : n ≤ r.arrayProto
  stringProto : n ≤ r.stringProto
  numberProto : n ≤ r.numberProto
  booleanProto : n ≤ r.booleanProto
  errorProtos : ∀ e ∈ r.errorProtos, n ≤ e.2
  apart : r.global ≠ r.objectProto

/-- A realm has been added above all objects of a heap. -/
structure Raised (h₀ : Heap) (r : Realm) (h : Heap) : Prop where
  above : Above h₀.objects.size r
  realms : h.realms = h₀.realms.push r
  old : ∀ s < h₀.objects.size, h.object s = h₀.object s
  global : h.Open r.global (.tagged "global") (some r.objectProto) fixedNames
  top : h.Open r.objectProto .plain none [protoKey]
  /-- Names lead through an empty scope to the properties of the global object. -/
  scopes : h.scopes = (h₀.scopes.push { (default : Scope) with object := some r.global }).push
    { (default : Scope) with
      parent := some h₀.scopes.size, receiver := .value (.obj r.global) }
  lexical : r.lexical = h₀.scopes.size + 1

/-- An object of a realm that is being made, neither its global object nor the one above all plain
objects. -/
structure Spare (h₀ : Heap) (r : Realm) (s : Ref) : Prop where
  fresh : h₀.objects.size ≤ s
  not_global : r.global ≠ s
  not_top : r.objectProto ≠ s

namespace Raised

theorem realm_self (hr : Raised h₀ r h) : h.realm h₀.realms.size = r := by
  simp [Heap.realm, hr.realms]

theorem realm_of_lt (hr : Raised h₀ r h) (hlt : realm < h₀.realms.size) :
    h.realm realm = h₀.realm realm := by
  simp [Heap.realm, hr.realms, Array.getElem?_push, Nat.ne_of_lt hlt]

/-- The next object is a spare one. -/
theorem spare (hr : Raised h₀ r h) : Spare h₀ r h.objects.size where
  fresh := Nat.le_of_lt (Nat.lt_of_le_of_lt hr.above.global hr.global.inside)
  not_global := Nat.ne_of_lt hr.global.inside
  not_top := Nat.ne_of_lt hr.top.inside

theorem addObject (hr : Raised h₀ r h) (o : Object) : Raised h₀ r (h.addObject o).2 where
  above := hr.above
  realms := hr.realms
  old t ht := by
    have hlt := Nat.lt_trans (Nat.lt_of_lt_of_le ht hr.above.global) hr.global.inside
    rw [object_addObject_of_lt hlt, hr.old t ht]
  global := hr.global.addObject o
  top := hr.top.addObject o
  scopes := hr.scopes
  lexical := hr.lexical

theorem modifySpare (hr : Raised h₀ r h) (hs : Spare h₀ r s) (f : Object → Object) :
    Raised h₀ r (h.modifyObject s f) where
  above := hr.above
  realms := hr.realms
  old t ht := by
    have hne : t ≠ s := Nat.ne_of_lt (Nat.lt_of_lt_of_le ht hs.fresh)
    rw [object_modifyObject_of_ne f hne, hr.old t ht]
  global := hr.global.modifyObject hs.not_global f
  top := hr.top.modifyObject hs.not_top f
  scopes := hr.scopes
  lexical := hr.lexical

theorem putSpare (hr : Raised h₀ r h) (hs : Spare h₀ r s) (k : Key) (p : Property) :
    Raised h₀ r (h.putOwn s k p) := hr.modifySpare hs _

/-- Writable data may be put into any object of the realm. -/
theorem putData (hr : Raised h₀ r h) (hs : h₀.objects.size ≤ s) (k : Key)
    (hp : ∃ v, p.content = .data v true) : Raised h₀ r (h.putOwn s k p) where
  above := hr.above
  realms := hr.realms
  old t ht := by
    rw [object_putOwn_of_ne (Nat.ne_of_lt (Nat.lt_of_lt_of_le ht hs)), hr.old t ht]
  global := hr.global.putOwn fun _ => .inr hp
  top := hr.top.putOwn fun _ => .inr hp
  scopes := hr.scopes
  lexical := hr.lexical

/-- A fixed name of the global object may hold anything. -/
theorem putFixed (hr : Raised h₀ r h) (k : Key) (hk : k ∈ fixedNames) (p : Property) :
    Raised h₀ r (h.putOwn r.global k p) where
  above := hr.above
  realms := hr.realms
  old t ht := by
    rw [object_putOwn_of_ne (Nat.ne_of_lt (Nat.lt_of_lt_of_le ht hr.above.global)), hr.old t ht]
  global := hr.global.putOwn fun _ => .inl hk
  top := hr.top.putOwn fun e => absurd e.symm hr.above.apart
  scopes := hr.scopes
  lexical := hr.lexical

/-- So may the name by which an object reaches what stands above it. -/
theorem putProto (hr : Raised h₀ r h) (p : Property) :
    Raised h₀ r (h.putOwn r.objectProto protoKey p) where
  above := hr.above
  realms := hr.realms
  old t ht := by
    have hne := Nat.ne_of_lt (Nat.lt_of_lt_of_le ht hr.above.objectProto)
    rw [object_putOwn_of_ne hne, hr.old t ht]
  global := hr.global.putOwn fun e => absurd e hr.above.apart
  top := hr.top.putOwn fun _ => .inl List.mem_cons_self
  scopes := hr.scopes
  lexical := hr.lexical

/-! ## Assigning to the global object -/

/-- Assigning to a name of the global object replaces its value, or adds it. -/
theorem assign (hr : Raised h₀ r h) (m : Machine) (realm : RealmRef) (hfixed : k ∉ fixedNames)
    (hproto : k ≠ protoKey) (v : Value) :
    m.assign realm true (.obj r.global) k v h =
      .done (.ok (), h.putOwn r.global k (.assigned (h.own r.global k) v)) := by
  have hn : (h.object r.global).Ordinary k := .inl (hr.global.isArray (by simp))
  obtain ⟨props, hobject, -⟩ := hr.global.shape
  obtain ⟨tops, htop, -⟩ := hr.top.shape
  cases hk : h.own r.global k with
  | none =>
    have hfind : h.find r.global k = h.own r.objectProto k :=
      find_of_own_eq_none hk (by rw [hobject]) hr.top.inside (by rw [htop])
    refine Machine.assign_new m hk (by rw [hobject]) (fun p hp => ?_) hn
    exact hr.top.content_of_own (by simp) (hfind ▸ hp) (by simpa using hproto)
  | some q =>
    obtain ⟨content, e, c⟩ := q
    obtain ⟨u, hu⟩ := hr.global.content_of_own (by simp) hk hfixed
    subst hu
    exact Machine.assign_own m hk hn

/-- A global object that was assigned to can be assigned to again. -/
theorem putAssigned (hr : Raised h₀ r h) (k : Key) (v : Value) :
    Raised h₀ r (h.putOwn r.global k (.assigned (h.own r.global k) v)) := by
  refine hr.putData hr.above.global k ⟨v, ?_⟩
  cases h.own r.global k <;> rfl

/-- What was read of an object is read still. -/
theorem reads (hr : Raised h₀ r h) {v : Value} (hk : h₀.Reads s k v) : h.Reads s k v := by
  obtain ⟨n, hc⟩ := hk
  have hsize : h₀.objects.size ≤ h.objects.size :=
    Nat.le_of_lt (Nat.lt_of_le_of_lt hr.above.global hr.global.inside)
  exact ⟨n, hc.of_old hsize hr.old⟩

end Raised

/-! ## Built-in objects -/

/-- A realm whose built-in objects are being made: its global object shows none of them yet. -/
structure Veiled (h₀ : Heap) (r : Realm) (h : Heap) : Prop extends Raised h₀ r h where
  hidden : ∀ c ∈ (h.object r.global).props, c.2.enumerable = false

/-- A realm is finished: the fixed names of its global object cannot be assigned to, and all that
it shows is an object that tells the time. -/
structure Finished (h₀ : Heap) (r : Realm) (h : Heap) : Prop extends Raised h₀ r h where
  locks : h.Locks r.global
  shown : ∀ c ∈ (h.object r.global).props, c.2.enumerable →
    c.1 = key "performance" ∧ c.2.value?.isSome

namespace Veiled

theorem addObject (hr : Veiled h₀ r h) (o : Object) : Veiled h₀ r (h.addObject o).2 where
  toRaised := hr.toRaised.addObject o
  hidden := by
    rw [object_addObject_of_lt hr.global.inside]
    exact hr.hidden

theorem modifySpare (hr : Veiled h₀ r h) (hs : Spare h₀ r s) (f : Object → Object) :
    Veiled h₀ r (h.modifyObject s f) where
  toRaised := hr.toRaised.modifySpare hs f
  hidden := by
    rw [object_modifyObject_of_ne f hs.not_global]
    exact hr.hidden

theorem putSpare (hr : Veiled h₀ r h) (hs : Spare h₀ r s) (k : Key) (p : Property) :
    Veiled h₀ r (h.putOwn s k p) := hr.modifySpare hs _

/-- What is put hidden into any object stays hidden. -/
theorem hidden_putOwn (hr : Veiled h₀ r h) (hp : s = r.global → p.enumerable = false) :
    ∀ c ∈ ((h.putOwn s k p).object r.global).props, c.2.enumerable = false := by
  by_cases hs : r.global = s
  · rw [← hs, object_putOwn_self hr.global.inside]
    intro c hc
    rcases mem_putKey hc with rfl | hc
    · exact hp hs.symm
    · exact hr.hidden c hc
  · rw [object_putOwn_of_ne hs]
    exact hr.hidden

theorem putHidden (hr : Veiled h₀ r h) (hs : h₀.objects.size ≤ s) (k : Key) (v : Value) :
    Veiled h₀ r (h.putOwn s k (.hidden v)) :=
  ⟨hr.putData hs k ⟨v, rfl⟩, hr.hidden_putOwn fun _ => rfl⟩

/-- A fixed name of the global object may hold anything. -/
theorem putFixed (hr : Veiled h₀ r h) (k : Key) (hk : k ∈ fixedNames) (p : Property)
    (hp : p.enumerable = false) : Veiled h₀ r (h.putOwn r.global k p) :=
  ⟨hr.toRaised.putFixed k hk p, hr.hidden_putOwn fun _ => hp⟩

theorem putProto (hr : Veiled h₀ r h) (p : Property) :
    Veiled h₀ r (h.putOwn r.objectProto protoKey p) :=
  ⟨hr.toRaised.putProto p, hr.hidden_putOwn fun e => absurd e.symm hr.above.apart⟩

theorem giveFunctions (hr : Veiled h₀ r h) (hs : h₀.objects.size ≤ s) (realm : RealmRef)
    (functionProto : Ref) (owner : Owner) (fs : List BuiltIn) :
    Veiled h₀ r (h.giveFunctions realm functionProto s owner fs) := by
  simp only [Heap.giveFunctions]
  induction fs generalizing h with
  | nil => exact hr
  | cons f fs ih => exact ih ((hr.addObject _).putHidden hs _ _)

theorem giveConstants (hr : Veiled h₀ r h) (hs : Spare h₀ r s)
    (constants : List (String × Float)) : Veiled h₀ r (h.giveConstants s constants) := by
  simp only [Heap.giveConstants]
  induction constants generalizing h with
  | nil => exact hr
  | cons c rest ih => exact ih (hr.putSpare hs _ _)

theorem addMaker (hr : Veiled h₀ r h) (realm : RealmRef) (maker : Maker) (name : String)
    (hs : h₀.objects.size ≤ s) : Veiled h₀ r (h.addMaker realm r maker name s).2 :=
  (((hr.addObject _).putSpare hr.spare _ _).putHidden hs _ _).putHidden hr.above.global _ _

/-- A constructor is a spare object. -/
theorem spare_addMaker (hr : Veiled h₀ r h) (realm : RealmRef) (maker : Maker) (name : String)
    (s : Ref) : Spare h₀ r (h.addMaker realm r maker name s).1 := hr.spare

theorem addHolder (hr : Veiled h₀ r h) (realm : RealmRef) (owner : Owner) (name : String)
    (kind : Kind) : Veiled h₀ r (h.addHolder realm r owner name kind).2 :=
  ((hr.addObject _).giveFunctions hr.spare.fresh _ _ _ _).putHidden hr.above.global _ _

theorem addErrors (hr : Veiled h₀ r h) (realm : RealmRef) {base : Ref}
    (hb : h₀.objects.size ≤ base) : Veiled h₀ r (h.addErrors realm r base) := by
  have hmethods := (hr.addMaker realm (.error .error) ErrorKind.error.name hb).giveFunctions hb
    realm r.functionProto .errorPrototype BuiltIn.errorMethods
  have hprotos := hr.above.errorProtos
  simp only [Heap.addErrors]
  generalize r.errorProtos = protos at hprotos
  generalize Heap.giveFunctions _ _ _ _ _ _ = g at hmethods
  induction protos generalizing g with
  | nil => exact hmethods
  | cons e rest ih =>
    obtain ⟨kind, proto⟩ := e
    have hproto : h₀.objects.size ≤ proto := hprotos (kind, proto) List.mem_cons_self
    refine ih (fun e he => hprotos e (List.mem_cons_of_mem _ he)) _ ?_
    have hnamed := (hmethods.putHidden hproto (key "name") (.text kind.name)).putHidden hproto
      (key "message") (.text "")
    dsimp only
    split
    · exact hnamed
    · exact (hnamed.addMaker _ _ _ hproto).modifySpare (hnamed.spare_addMaker _ _ _ _) _

theorem giveMethods (hr : Veiled h₀ r h) (realm : RealmRef) :
    Veiled h₀ r (h.giveMethods realm r) := by
  have ha := hr.above
  -- the last step comes first
  unfold Heap.giveMethods
  refine giveFunctions ?_ ha.booleanProto _ _ _ _
  refine giveFunctions ?_ ha.numberProto _ _ _ _
  refine giveFunctions ?_ ha.stringProto _ _ _ _
  refine giveFunctions ?_ ha.arrayProto _ _ _ _
  refine giveFunctions ?_ ha.functionProto _ _ _ _
  refine putProto (addObject (addObject ?_ _) _) _
  exact hr.giveFunctions ha.objectProto _ _ _ _

theorem giveMakers (hr : Veiled h₀ r h) (realm : RealmRef) :
    Veiled h₀ r (h.giveMakers realm r) := by
  have ha := hr.above
  have hobject := (hr.addMaker realm .object "Object" ha.objectProto).giveFunctions
    hr.spare.fresh realm r.functionProto .object BuiltIn.objectFunctions
  have hfunction := hobject.addMaker realm .function "Function" ha.functionProto
  have harray := (hfunction.addMaker realm .array "Array" ha.arrayProto).giveFunctions
    hfunction.spare.fresh realm r.functionProto .array BuiltIn.arrayFunctions
  have hstring := (harray.addMaker realm .string "String" ha.stringProto).giveFunctions
    harray.spare.fresh realm r.functionProto .string BuiltIn.textFunctions
  have hnumber := (hstring.addMaker realm .number "Number" ha.numberProto).giveFunctions
    hstring.spare.fresh realm r.functionProto .number BuiltIn.numberFunctions
  have hconstants := hnumber.giveConstants hstring.spare BuiltIn.numberConstants
  exact hconstants.addMaker realm .boolean "Boolean" ha.booleanProto

/-- A realm is finished when its clock is shown. -/
theorem finish (hr : Veiled h₀ r h) (hl : h.Locks r.global) (v : Value) :
    Finished h₀ r (h.putOwn r.global (key "performance") (.plain v)) where
  toRaised := hr.putData hr.above.global _ ⟨v, rfl⟩
  locks := hl.putOwn (fun _ => by decide) _
  shown c hc he := by
    rw [object_putOwn_self hr.global.inside] at hc
    rcases mem_putKey hc with rfl | hc
    · exact ⟨rfl, rfl⟩
    · rw [hr.hidden c hc] at he
      cases he

/-- The last objects of a realm. -/
theorem giveGlobals (hr : Veiled h₀ r h) (realm : RealmRef) :
    Finished h₀ r (h.giveGlobals realm r) := by
  have ha := hr.above
  have h₁ := hr.putFixed (key "undefined") (by decide) ⟨.data .undefined false, false, false⟩ rfl
  have h₂ := h₁.putFixed (key "NaN") (by decide)
    ⟨.data (.num Numeric.nan) false, false, false⟩ rfl
  have h₃ := h₂.putFixed (key "Infinity") (by decide)
    ⟨.data (.num Numeric.infinity) false, false, false⟩ rfl
  have l₃ : Locks _ r.global := fun k hk => by
    have hne : ∀ t, (.tagged "global" : Kind) ≠ .string t := by simp
    rw [h₂.global.own_putOwn hne, h₁.global.own_putOwn hne, hr.global.own_putOwn hne]
    have hun : key "undefined" ≠ key "NaN" ∧ key "undefined" ≠ key "Infinity" := by decide
    have hni : key "NaN" ≠ key "Infinity" := by decide
    simp only [fixedNames, List.mem_cons, List.not_mem_nil, or_false] at hk
    rcases hk with rfl | rfl | rfl
    · exact ⟨_, _, _, by rw [if_neg hun.2, if_neg hun.1, if_pos rfl]⟩
    · exact ⟨_, _, _, by rw [if_neg hni, if_pos rfl]⟩
    · exact ⟨.num Numeric.infinity, false, false, if_pos rfl⟩
  have h₄ := (h₃.putHidden ha.global (key "globalThis")
    (.obj r.global)).giveFunctions ha.global realm r.functionProto .global BuiltIn.globalFunctions
  have l₄ := (l₃.putOwn (s := r.global) (k := key "globalThis") (fun _ => by decide)
    (.hidden (.obj r.global))).giveFunctions (s := r.global) BuiltIn.globalFunctions
      (fun _ => by decide) realm r.functionProto .global
  have h₅ := (h₄.addHolder realm .math "Math" (.tagged "Math")).giveConstants
    h₄.spare BuiltIn.mathConstants
  have l₅ := (l₄.addHolder h₄.global.inside realm .math "Math" (by decide)
    (.tagged "Math")).giveConstants h₄.spare.not_global BuiltIn.mathConstants
  have h₆ := h₅.addHolder realm .json "JSON" (.tagged "JSON")
  have l₆ := l₅.addHolder h₅.global.inside realm .json "JSON" (by decide) (.tagged "JSON")
  let shown (o : Object) : Object := { o with
    props := o.props.map fun p => (p.1, { p.2 with enumerable := true }) }
  have h₇ := (h₆.addHolder realm .performance "performance" .plain).modifySpare h₆.spare shown
  have l₇ := (l₆.addHolder h₆.global.inside realm .performance "performance" (by decide)
    .plain).modifyObject h₆.spare.not_global shown
  have l₈ := l₇.putOwn (k := key "timeOrigin") (fun e => absurd e.symm h₆.spare.not_global)
    (.plain (.num 0))
  exact (h₇.putSpare h₆.spare (key "timeOrigin") _).finish l₈ _

end Veiled

/-- What stands above the other objects of a realm is made above all objects of the heap. -/
theorem veiled_addProtos (h : Heap) :
    Veiled h h.addProtos.1 { h.addProtos.2.2 with
      realms := h.addProtos.2.2.realms.push h.addProtos.1 } ∧
      h.objects.size ≤ h.addProtos.2.1 := by
  refine ⟨⟨⟨?above, rfl, fun s hs => ?old, ⟨?_, [], ?global, by simp [Writable, findKey]⟩,
    ⟨?_, [], ?top, by simp [Writable, findKey]⟩, ?scopes, ?lexical⟩, ?hidden⟩,
    ?base⟩
  case above =>
    constructor <;> simp [addProtos, addPlain, addArray, addObject, addScope, ErrorKind.all,
      Nat.add_assoc]
  case old =>
    simp (disch := omega) [addProtos, addPlain, addArray, addObject, addScope, ErrorKind.all,
      object, Array.getElem?_push, if_neg, Nat.add_assoc]
  case base =>
    simp [addProtos, addPlain, addArray, addObject, addScope, Nat.add_assoc]
  all_goals
    simp [addProtos, addPlain, addArray, addObject, addScope, ErrorKind.all, object,
      Array.getElem_push, Nat.add_assoc]

/-- A new realm is made above all objects of the heap. -/
theorem finished_addRealm (h : Heap) :
    h.addRealm.1 = h.realms.size ∧ ∃ r, Finished h r h.addRealm.2 := by
  obtain ⟨hr, hb⟩ := veiled_addProtos h
  exact ⟨rfl, _, (((hr.giveMethods _).giveMakers _).addErrors _ hb).giveGlobals _⟩

end Heap
end LoadHook.Script
