import LoadHook.Proofs.Module.Object
import LoadHook.Proofs.Script.Realm
import Mathlib.Data.List.Basic
import Mathlib.Data.List.TakeWhile

/-!
# The globals of a module

A module runs in a realm of its own, whose global object gets what the calling realm shows and
then the names of the module. So a module starts with the globals of whoever asks for it, with all
that the caller has made of them, and not with those of the host.
-/
namespace LoadHook

open Script (Value RealmRef Ref Heap Eval Key Property Realm)

namespace Script

/-- The property that there is after a value is assigned, if one is. -/
def Property.received (p : Option Property) : Option Value → Option Property
  | some v => some (.assigned p v)
  | none => p

@[simp] theorem Property.assigned_received (p : Option Property) (u : Option Value) (v : Value) :
    Property.assigned (Property.received p u) v = .assigned p v := by
  cases u <;> cases p <;> rfl

@[simp] theorem Property.value?_assigned (p : Option Property) (v : Value) :
    (Property.assigned p v).value? = some v := by
  cases p <;> rfl

namespace Object

/-- Whether an object stands for a text, whose units it has as properties. -/
def isText (o : Object) : Bool :=
  match o.kind with
  | .string _ => true
  | _ => false

/-- A property of an object that is no text is one of its list. -/
theorem mem_props {o : Object} {k : Key} {p : Property} (ho : o.isText = false)
    (hk : o.own k = some p) : (k, p) ∈ o.props := by
  refine mem_of_findKey ?_
  rw [← hk, own]
  rw [isText] at ho
  cases hkind : o.kind with
  | string s => simp [hkind] at ho
  | _ => rfl

/-- An object that is no text lists the keys of all its properties. -/
theorem mem_ownKeys {o : Object} {k : Key} {p : Property} (ho : o.isText = false)
    (hk : o.own k = some p) : k ∈ o.ownKeys := by
  have hkeys : k ∈ o.props.map Prod.fst := List.mem_map.mpr ⟨_, mem_props ho hk, rfl⟩
  rw [ownKeys]
  cases hi : index? k with
  | some i =>
    refine List.mem_append_left _ (List.mem_append_right _ (List.mem_map.mpr ⟨(i, k), ?_, rfl⟩))
    exact List.mem_mergeSort.mpr (List.mem_filterMap.mpr ⟨k, hkeys, by rw [hi]; rfl⟩)
  | none =>
    have hnamed : k ∈ (o.props.map Prod.fst).filter fun k => (index? k).isNone :=
      List.mem_filter.mpr ⟨hkeys, by rw [hi]; rfl⟩
    refine List.mem_append_right _ ?_
    cases o.kind with
    | string s => exact List.mem_cons_of_mem _ hnamed
    | _ => exact hnamed

end Object

namespace Heap

variable {h₀ h : Heap} {r : Realm} {s : Ref} {realm : RealmRef} {k l : Key} {v : Value}
  {p : Property}

/-- An own property of the global object of a realm. -/
def globalOwn (h : Heap) (realm : RealmRef) (k : Key) : Option Property :=
  h.own (h.realm realm).global k

/-- The value that a realm shows under a key of its global object. -/
def shows (h : Heap) (realm : RealmRef) (k : Key) : Option Value :=
  (h.globalOwn realm k).bind fun p => if p.enumerable then p.value? else none

/-- The keys that a realm shows in its global object. -/
def shownKeys (h : Heap) (realm : RealmRef) : List Key :=
  (h.object (h.realm realm).global).ownKeys.filter fun k =>
    ((h.globalOwn realm k).map Property.enumerable).getD false

theorem of_shows (hk : h.shows realm k = some v) :
    ∃ p, h.globalOwn realm k = some p ∧ p.enumerable ∧ p.value? = some v := by
  obtain ⟨p, hp, hv⟩ := Option.bind_eq_some_iff.mp hk
  exact ⟨p, hp, Option.ite_none_right_eq_some.mp hv⟩

/-- What a realm shows is data. -/
structure Frank (h : Heap) (realm : RealmRef) : Prop where
  inside : realm < h.realms.size
  global : (h.realm realm).global < h.objects.size
  named : (h.object (h.realm realm).global).isText = false
  data : ∀ kp ∈ (h.object (h.realm realm).global).props, kp.2.enumerable → kp.2.value?.isSome

instance (h : Heap) (realm : RealmRef) : Decidable (h.Frank realm) :=
  decidable_of_iff (realm < h.realms.size ∧ (h.realm realm).global < h.objects.size ∧
      (h.object (h.realm realm).global).isText = false ∧
      ∀ kp ∈ (h.object (h.realm realm).global).props, kp.2.enumerable → kp.2.value?.isSome)
    ⟨fun ⟨hi, hg, hn, hd⟩ => ⟨hi, hg, hn, hd⟩, fun ⟨hi, hg, hn, hd⟩ => ⟨hi, hg, hn, hd⟩⟩

/-- A realm shows values under the keys that it shows. -/
theorem Frank.mem_shownKeys (hf : h.Frank realm) :
    k ∈ h.shownKeys realm ↔ (h.shows realm k).isSome := by
  rw [shownKeys, List.mem_filter, shows]
  cases hk : h.globalOwn realm k with
  | none => simp
  | some p =>
    have hmem : k ∈ (h.object (h.realm realm).global).ownKeys := Object.mem_ownKeys hf.named hk
    cases he : p.enumerable with
    | false => simp [he]
    | true =>
      simp [he, hmem, hf.data (k, p) (Object.mem_props hf.named hk) he]

/-- A key can be assigned to in a new global object: it is a text, and not one of the few names
that cannot be assigned to. -/
structure Assignable (k : Key) : Prop where
  text : (Text.Utf16.toString? k).isOk
  free : k ∉ fixedNames

/-- A property can be copied to a new global object: it is data under a key that is a text, and
not one of the few names that cannot be assigned to. -/
structure Portable (k : Key) (p : Property) : Prop where
  data : p.value?.isSome
  text : (Text.Utf16.toString? k).isOk
  free : k ∉ fixedNames ∧ k ≠ protoKey

instance (k : Key) (p : Property) : Decidable (Portable k p) :=
  decidable_of_iff (p.value?.isSome ∧ (Text.Utf16.toString? k).isOk ∧ k ∉ fixedNames ∧ k ≠ protoKey)
    ⟨fun ⟨hd, ht, hf⟩ => ⟨hd, ht, hf⟩, fun ⟨hd, ht, hf⟩ => ⟨hd, ht, hf⟩⟩

/-- What a realm shows can be copied to a new one. -/
structure Copyable (h : Heap) (realm : RealmRef) : Prop where
  inside : realm < h.realms.size
  global : (h.realm realm).global < h.objects.size
  named : (h.object (h.realm realm).global).isText = false
  portable : ∀ kp ∈ (h.object (h.realm realm).global).props, kp.2.enumerable → Portable kp.1 kp.2

instance (h : Heap) (realm : RealmRef) : Decidable (h.Copyable realm) :=
  decidable_of_iff (realm < h.realms.size ∧ (h.realm realm).global < h.objects.size ∧
      (h.object (h.realm realm).global).isText = false ∧
      ∀ kp ∈ (h.object (h.realm realm).global).props, kp.2.enumerable → Portable kp.1 kp.2)
    ⟨fun ⟨hi, hg, hn, hp⟩ => ⟨hi, hg, hn, hp⟩, fun ⟨hi, hg, hn, hp⟩ => ⟨hi, hg, hn, hp⟩⟩

theorem Copyable.portable_of_own (hc : h.Copyable realm) (hp : h.globalOwn realm k = some p)
    (he : p.enumerable) : Portable k p := hc.portable (k, p) (Object.mem_props hc.named hp) he

theorem Copyable.frank (hc : h.Copyable realm) : h.Frank realm :=
  ⟨hc.inside, hc.global, hc.named, fun kp hkp he => (hc.portable kp hkp he).data⟩

/-- The keys that are shown can be assigned to, and do not reach what stands above. -/
theorem Copyable.assignable (hc : h.Copyable realm) (hk : (h.shows realm k).isSome) :
    Assignable k ∧ k ≠ protoKey := by
  obtain ⟨v, hv⟩ := Option.isSome_iff_exists.mp hk
  obtain ⟨p, hp, he, -⟩ := of_shows hv
  obtain ⟨-, htext, hfixed, hproto⟩ := hc.portable_of_own hp he
  exact ⟨⟨htext, hfixed⟩, hproto⟩

/-- What assigning values to names of an object leaves, the last one standing first. -/
def assignAll (s : Ref) : List (Key × Value) → Heap → Heap
  | [], h => h
  | (k, v) :: rest, h =>
    (h.assignAll s rest).putOwn s k (.assigned ((h.assignAll s rest).own s k) v)

theorem assignAll_append (s : Ref) (kvs lvs : List (Key × Value)) (h : Heap) :
    assignAll s (kvs ++ lvs) h = assignAll s kvs (assignAll s lvs h) := by
  induction kvs with
  | nil => rfl
  | cons kv kvs ih => simp only [List.cons_append, assignAll, ih]

@[simp] theorem callable_putOwn (h : Heap) (s : Ref) (k : Key) (p : Property) (v : Value) :
    (h.putOwn s k p).callable v = h.callable v := by
  cases v with
  | obj f =>
    by_cases hf : f = s
    · by_cases hlt : s < h.objects.size
      · rw [Heap.callable, hf, object_putOwn_self hlt]
        rfl
      · simp [Heap.callable, hf, object, putOwn, modifyObject, Array.getElem?_modify,
          Array.getElem?_eq_none (Nat.le_of_not_lt hlt)]
    · rw [Heap.callable, object_putOwn_of_ne hf, ← Heap.callable]
  | _ => rfl

/-- Assigning to names makes nothing a function. -/
@[simp] theorem callable_assignAll (s : Ref) (kvs : List (Key × Value)) (h : Heap) (v : Value) :
    (h.assignAll s kvs).callable v = h.callable v := by
  induction kvs with
  | nil => rfl
  | cons kv kvs ih => simp only [assignAll, callable_putOwn, ih]

namespace Raised

theorem assignAll (hr : Raised h₀ r h) (kvs : List (Key × Value)) :
    Raised h₀ r (h.assignAll r.global kvs) := by
  induction kvs with
  | nil => exact hr
  | cons kv kvs ih => exact ih.putAssigned kv.1 kv.2

/-- A name of the global object holds what was assigned to it last. -/
theorem own_assignAll (hr : Raised h₀ r h) (kvs : List (Key × Value)) (l : Key) :
    (h.assignAll r.global kvs).own r.global l =
      Property.received (h.own r.global l) (kvs.lookup l) := by
  induction kvs with
  | nil => rfl
  | cons kv kvs ih =>
    obtain ⟨k, v⟩ := kv
    rw [Heap.assignAll, (hr.assignAll kvs).global.own_putOwn (by simp), List.lookup_cons]
    by_cases hl : l = k
    · rw [if_pos hl, ← hl, ih, Property.assigned_received, beq_self_eq_true]
      rfl
    · rw [if_neg hl, ih, beq_eq_false_iff_ne.mpr hl]

theorem holds (hr : Raised h₀ r h) (hk : h₀.Holds s k v) : h.Holds s k v := hk.of_old hr.old

/-- What can be called can be called still. -/
theorem callable (hr : Raised h₀ r h) (hv : h₀.callable v) : h.callable v := by
  cases v with
  | obj f =>
    have hlt : f < h₀.objects.size := by
      refine Nat.lt_of_not_le fun hle => ?_
      simp [Heap.callable, object, Array.getElem?_eq_none hle, Object.callable, default] at hv
    rw [Heap.callable, hr.old f hlt]
    exact hv
  | _ => cases hv

theorem globalOwn_self (hr : Raised h₀ r h) (k : Key) :
    h.globalOwn h₀.realms.size k = h.own r.global k := by rw [globalOwn, hr.realm_self]

/-- What a realm shows is data that it has still. -/
theorem holds_of_shows (hr : Raised h₀ r h) (hk : h₀.shows realm k = some v) :
    h.Holds (h₀.realm realm).global k v := by
  obtain ⟨⟨content, e, c⟩, hown, -, hv⟩ := of_shows hk
  cases content with
  | data u writable =>
    cases hv
    exact hr.holds ⟨writable, e, c, hown⟩
  | accessor get set => cases hv

end Raised

end Heap
end Script

namespace Sandbox

open Script (key fixedNames protoKey)
open Script.Heap (Raised)

variable {w : Workspace} {caller : RealmRef} {h : Heap} {r : Realm} {k : Key} {v : Value}
  {module : Ref} {require exports filename : Value} {file : Path}

/-! ## Copying -/

/-- What a realm shows, the last key standing first. -/
def shownValues (h : Heap) (realm : RealmRef) (ks : List Key) : List (Key × Value) :=
  (ks.map fun k => (k, (h.shows realm k).getD .undefined)).reverse

theorem globalOf_done (hr : Raised w.heap r h) :
    globalOf w.heap.realms.size h = .done (.ok r.global, h) := by
  rw [globalOf, Eval.read, hr.realm_self]

theorem globalOf_caller (hr : Raised w.heap r h) (hf : w.heap.Frank caller) :
    globalOf caller h = .done (.ok (w.heap.realm caller).global, h) := by
  rw [globalOf, Eval.read, hr.realm_of_lt hf.inside]

/-- Copying what is shown under a key that is a text comes to assigning it. -/
theorem copyKey_eq (hr : Raised w.heap r h) (hf : w.heap.Frank caller)
    (hk : w.heap.shows caller k = some v) (ht : (Text.Utf16.toString? k).isOk) :
    copyKey caller w.heap.realms.size k { w with heap := h } =
      Load.script (Script.standardMachine.assign w.heap.realms.size true (.obj r.global) k v)
        { w with heap := h } := by
  obtain ⟨s, hs⟩ : ∃ s, Text.Utf16.toString? k = .ok s := by
    cases hs : Text.Utf16.toString? k with
    | ok s => exact ⟨s, rfl⟩
    | error place => rw [hs] at ht; cases ht
  rw [copyKey, hs]
  simp only [Load.script]
  rw [Eval.bind_of_done (globalOf_caller hr hf), Eval.bind_of_done
      (Script.Machine.getRef_of_holds _ (hr.holds_of_shows hk)),
    Eval.bind_of_done (globalOf_done hr)]

theorem copyKey_done (hr : Raised w.heap r h) (hf : w.heap.Frank caller)
    (hk : w.heap.shows caller k = some v) (ha : Script.Heap.Assignable k) (hproto : k ≠ protoKey) :
    copyKey caller w.heap.realms.size k { w with heap := h } =
      .done (.ok (), { w with heap := h.assignAll r.global [(k, v)] }) := by
  rw [copyKey_eq hr hf hk ha.text]
  exact Load.script_of_done (hr.assign _ _ ha.free hproto v)

theorem copyKeys_done (hr : Raised w.heap r h) (hf : w.heap.Frank caller) {ks : List Key}
    (hks : ∀ k ∈ ks, (w.heap.shows caller k).isSome)
    (hfree : ∀ k ∈ ks, Script.Heap.Assignable k ∧ k ≠ protoKey) :
    copyKeys caller w.heap.realms.size ks { w with heap := h } =
      .done (.ok (), { w with heap := h.assignAll r.global (shownValues w.heap caller ks) }) := by
  induction ks generalizing h with
  | nil => rfl
  | cons k ks ih =>
    obtain ⟨v, hk⟩ := Option.isSome_iff_exists.mp (hks k List.mem_cons_self)
    obtain ⟨ha, hproto⟩ := hfree k List.mem_cons_self
    have hrest := ih (hr.assignAll [(k, v)]) (fun l hl => hks l (List.mem_cons_of_mem k hl))
      fun l hl => hfree l (List.mem_cons_of_mem k hl)
    have hsplit : shownValues w.heap caller (k :: ks) =
        shownValues w.heap caller ks ++ [(k, v)] := by
      simp [shownValues, hk]
    rw [copyKeys, Load.bind_of_done (copyKey_done hr hf hk ha hproto), hrest, hsplit,
      Heap.assignAll_append]

/-- What is copied is what is shown. -/
theorem lookup_shownValues (hf : h.Frank caller) (k : Key) :
    (shownValues h caller (h.shownKeys caller)).lookup k = h.shows caller k := by
  rw [shownValues, ← List.map_reverse]
  cases hk : h.shows caller k with
  | some v =>
    have hmem : k ∈ (h.shownKeys caller).reverse := by
      rw [List.mem_reverse, hf.mem_shownKeys, hk, Option.isSome_some]
    rw [List.lookup_graph _ hmem, hk, Option.getD_some]
  | none =>
    refine List.lookup_eq_none_iff.mpr fun kv hkv => ?_
    obtain ⟨l, hl, rfl⟩ := List.mem_map.mp hkv
    rw [List.mem_reverse, hf.mem_shownKeys] at hl
    refine bne_iff_ne.mpr fun e => ?_
    cases e
    rw [hk] at hl
    cases hl

/-! ## The names of a module -/

/-- The names that a module finds around it whatever the caller shows. -/
def boundNames : List String :=
  ["require", "exports", "__filename", "__dirname", "module", "global"]

/-- What the host binds to these names, the last one standing first. -/
def moduleBindings (global module : Ref) (require exports : Value) (output file : Path) :
    List (Key × Value) :=
  [(key "global", .obj global), (key "module", .obj module),
    (key "__dirname", .text (file.parent.getD "").text), (key "__filename", .text output.text),
    (key "exports", exports), (key "require", require)]

theorem keys_moduleBindings (g module : Ref) (require exports : Value) (output file : Path) :
    (moduleBindings g module require exports output file).map Prod.fst =
      (boundNames.map key).reverse := rfl

theorem lookup_moduleBindings_eq_none {g : Ref} {output : Path} :
    (moduleBindings g module require exports output file).lookup k = none ↔
      k ∉ boundNames.map key := by
  rw [List.lookup_eq_none_iff, ← List.mem_reverse,
    ← keys_moduleBindings g module require exports output file]
  simp only [List.mem_map, not_exists, not_and, bne_iff_ne]
  exact ⟨fun h kv hkv e => h kv hkv e.symm, fun h kv hkv e => h kv hkv e.symm⟩

/-- The module object holds as data what the host reads from it: what is its own, and the file
that it was loaded from. -/
structure Furnished (h : Heap) (module : Ref) (require exports : Value) (file : Path) : Prop where
  require_held : h.Holds module (key "require") require
  callable : h.callable require
  exports_held : h.Holds module exportsKey exports
  filename_held : ∃ s text, h.Holds module (key "filename") (.str s) ∧
    Text.Utf16.toString? s = .ok text ∧ file = Path.ofString text

/-- What is read of a module object, no script being run. -/
structure Legible (h : Heap) (module : Ref) (require exports filename : Value) : Prop where
  require : h.Reads module (key "require") require
  exports : h.Reads module exportsKey exports
  filename : h.Reads module (key "filename") filename

theorem Furnished.legible (hm : Furnished h module require exports file) :
    ∃ filename text, Legible h module require exports filename ∧
      Script.textOf h filename = .ok text ∧ file = Path.ofString text := by
  obtain ⟨s, text, hs, ht, hfile⟩ := hm.filename_held
  exact ⟨.str s, text, ⟨hm.require_held.reads, hm.exports_held.reads, hs.reads⟩,
    by simp only [Script.textOf, ht], hfile⟩

/-- What a value is as a text does not depend on the heap. -/
theorem textOf_of_ok {v : Value} {text : String} {h' : Heap} (ht : Script.textOf h v = .ok text) :
    Script.textOf h' v = .ok text := by
  cases v with
  | str s => exact ht
  | _ => cases ht

namespace Legible

theorem of_raised (hm : Legible w.heap module require exports filename)
    (hr : Raised w.heap r h) : Legible h module require exports filename :=
  ⟨hr.reads hm.require, hr.reads hm.exports, hr.reads hm.filename⟩

variable (hm : Legible h module require exports filename) (realm : RealmRef) (w : Workspace)
include hm

/-- The `require` of the module is handed out as long as it can be called. -/
theorem requireOf_eq : requireOf realm module { w with heap := h } =
    if h.callable require then .done (.ok require, { w with heap := h })
    else .done (.error (.error (.engine .type (Script.conversionText h require "function"))),
      { w with heap := h }) := by
  have hproperty : Load.property realm module "require" { w with heap := h } =
      .done (.ok require, { w with heap := h }) :=
    Load.script_of_done (Script.Machine.getRef_of_reads _ hm.require)
  have hcallable : Load.read (fun w => w.heap.callable require) { w with heap := h } =
      .done (.ok (h.callable require), { w with heap := h }) := rfl
  rw [requireOf, Load.bind_of_done hproperty, Load.bind_of_done hcallable]
  split <;> rfl

theorem requireOf_done (hc : h.callable require) :
    requireOf realm module { w with heap := h } = .done (.ok require, { w with heap := h }) := by
  rw [hm.requireOf_eq, if_pos hc]

theorem exports_done :
    Load.exports realm module { w with heap := h } = .done (.ok exports, { w with heap := h }) :=
  Load.script_of_done (Script.Machine.getRef_of_reads _ hm.exports)

theorem filename_eq : Load.textProperty realm module "filename" { w with heap := h } =
    match Script.textOf h filename with
    | .ok text => .done (.ok text, { w with heap := h })
    | .error text => .done (.error (.error (.engine .type text)), { w with heap := h }) := by
  have hproperty : Load.property realm module "filename" { w with heap := h } =
      .done (.ok filename, { w with heap := h }) :=
    Load.script_of_done (Script.Machine.getRef_of_reads _ hm.filename)
  have hread : Load.read (fun w => Script.textOf w.heap filename) { w with heap := h } =
      .done (.ok (Script.textOf h filename), { w with heap := h }) := rfl
  rw [Load.textProperty, Load.bind_of_done hproperty, Load.bind_of_done hread]
  cases Script.textOf h filename <;> rfl

theorem dirname_eq : Load.dirname realm module { w with heap := h } =
    match Script.textOf h filename with
    | .ok text => .done (.ok ((Path.ofString text).parent.getD ""), { w with heap := h })
    | .error text => .done (.error (.error (.engine .type text)), { w with heap := h }) := by
  have htext := hm.filename_eq realm w
  cases ht : Script.textOf h filename with
  | ok text => exact Load.bind_of_done (Load.bind_of_done (by rw [htext, ht]))
  | error text => exact Load.bind_of_failed (Load.bind_of_failed (by rw [htext, ht]))

theorem dirname_done {text : String} (ht : Script.textOf h filename = .ok text) :
    Load.dirname realm module { w with heap := h } =
      .done (.ok ((Path.ofString text).parent.getD ""), { w with heap := h }) := by
  rw [hm.dirname_eq, ht]

end Legible

theorem free_boundNames :
    ∀ name ∈ boundNames, key name ∉ fixedNames ∧ key name ≠ protoKey := by
  decide

theorem script_globalOf_done (hr : Raised w.heap r h) :
    Load.script (globalOf w.heap.realms.size) { w with heap := h } =
      .done (.ok r.global, { w with heap := h }) := Load.script_of_done (globalOf_done hr)

theorem bindName_done (hr : Raised w.heap r h) {name : String}
    (hn : key name ∉ fixedNames ∧ key name ≠ protoKey) (v : Value) :
    bindName w.heap.realms.size name v { w with heap := h } =
      .done (.ok (), { w with heap := h.assignAll r.global [(key name, v)] }) := by
  rw [bindName, Load.bind_of_done (script_globalOf_done hr)]
  exact Load.script_of_done (hr.assign _ _ hn.1 hn.2 v)

/-- What the module has of its own and the file that is run are bound before the directory is asked
for. -/
theorem bindModule_begun (hr : Raised w.heap r h)
    (hm : Legible w.heap module require exports filename) (hc : h.callable require)
    (output : Path) :
    bindModule caller w.heap.realms.size output module { w with heap := h } =
      (do
        bindName w.heap.realms.size "__dirname" (.text (← Load.dirname caller module).text)
        bindName w.heap.realms.size "module" (.obj module)
        bindName w.heap.realms.size "global"
          (.obj (← Load.script (globalOf w.heap.realms.size))) : Load Unit)
        { w with heap := h.assignAll r.global [(key "__filename", .text output.text),
          (key "exports", exports), (key "require", require)] } := by
  have hr₁ := hr.assignAll [(key "require", require)]
  have hr₂ := hr₁.assignAll [(key "exports", exports)]
  rw [bindModule, Load.bind_of_done ((hm.of_raised hr).requireOf_done caller w hc),
    Load.bind_of_done (bindName_done hr (free_boundNames "require" (by decide)) require),
    Load.bind_of_done ((hm.of_raised hr₁).exports_done caller w),
    Load.bind_of_done (bindName_done hr₁ (free_boundNames "exports" (by decide)) exports),
    Load.bind_of_done (bindName_done hr₂ (free_boundNames "__filename" (by decide)) _)]
  rfl

theorem bindModule_done (hr : Raised w.heap r h)
    (hm : Legible w.heap module require exports filename) (hc : h.callable require)
    {text : String} (ht : Script.textOf w.heap filename = .ok text) (output : Path) :
    bindModule caller w.heap.realms.size output module { w with heap := h } =
      .done (.ok (), { w with
        heap := h.assignAll r.global
          (moduleBindings r.global module require exports output (Path.ofString text)) }) := by
  -- the heap after each name
  have hr₃ := hr.assignAll [(key "__filename", .text output.text), (key "exports", exports),
    (key "require", require)]
  have hr₄ := hr₃.assignAll
    [(key "__dirname", .text ((Path.ofString text).parent.getD "").text)]
  have hr₅ := hr₄.assignAll [(key "module", .obj module)]
  rw [bindModule_begun hr hm hc,
    Load.bind_of_done ((hm.of_raised hr₃).dirname_done caller w (textOf_of_ok ht)),
    Load.bind_of_done (bindName_done hr₃ (free_boundNames "__dirname" (by decide)) _),
    Load.bind_of_done (bindName_done hr₄ (free_boundNames "module" (by decide)) _),
    Load.bind_of_done (script_globalOf_done hr₅)]
  exact bindName_done hr₅ (free_boundNames "global" (by decide)) (.obj r.global)

/-! ## Starting a module -/

theorem shownKeys_done (hr : Raised w.heap r h) (hf : w.heap.Frank caller) :
    Load.script (do shownKeys (← globalOf caller)) { w with heap := h } =
      .done (.ok (w.heap.shownKeys caller), { w with heap := h }) := by
  refine Load.script_of_done ?_
  rw [Eval.bind_of_done (globalOf_caller hr hf), shownKeys, Eval.read, hr.old _ hf.global]
  rfl

/-- What stands under a key of a new global object. -/
def freshGlobal (h : Heap) (k : Key) : Option Property := h.addRealm.2.globalOwn h.addRealm.1 k

/-- How a module starts that is run for a caller: in a new realm, nothing that there was before
being changed. Under each key its global object has what stands there in every new realm, then
what the caller shows, then what the host binds. -/
structure Started (caller : RealmRef) (w : Workspace) (module : Ref) (require exports : Value)
    (output file : Path) (realm : RealmRef) (w' : Workspace) : Prop where
  next : realm = w.heap.realms.size
  world : w'.world = w.world
  hooks : w'.hooks = w.hooks
  old : ∀ s < w.heap.objects.size, w'.heap.object s = w.heap.object s
  realms : ∀ n < w.heap.realms.size, w'.heap.realm n = w.heap.realm n
  built : w'.heap.realm realm = w.heap.addRealm.2.realm realm
  fresh : w.heap.objects.size ≤ (w'.heap.realm realm).global
  globals : ∀ k, w'.heap.globalOwn realm k =
    Property.received (Property.received (freshGlobal w.heap k) (w.heap.shows caller k))
      ((moduleBindings (w'.heap.realm realm).global module require exports output file).lookup k)

/-- What can be called can be called when there is a new realm. -/
theorem callable_addRealm (hv : h.callable v) : h.addRealm.2.callable v :=
  h.finished_addRealm.2.elim fun _ hr => hr.toRaised.callable hv

/-- A heap with a new realm whose global object has been given what a caller shows and the names of
a module. -/
def startedHeap (h : Heap) (caller : RealmRef) (global module : Ref) (require exports : Value)
    (output file : Path) : Heap :=
  Heap.assignAll global (moduleBindings global module require exports output file)
    (Heap.assignAll global (shownValues h caller (h.shownKeys caller)) h.addRealm.2)

/-- A realm is set up for a module if what the caller shows can be assigned, the `require` of the
module can be called, and its file is a text. -/
theorem prepare_eq (hf : w.heap.Frank caller)
    (hfree : ∀ k ∈ w.heap.shownKeys caller, Script.Heap.Assignable k ∧ k ≠ protoKey)
    (hm : Legible w.heap module require exports filename)
    (hc : w.heap.addRealm.2.callable require)
    {text : String} (ht : Script.textOf w.heap filename = .ok text) (output : Path) :
    ∃ r, Script.Heap.Finished w.heap r w.heap.addRealm.2 ∧
      prepare caller output module w = .done (.ok w.heap.realms.size, { w with
        heap := startedHeap w.heap caller r.global module require exports output
          (Path.ofString text) }) := by
  obtain ⟨hrealm, r, hr⟩ := w.heap.finished_addRealm
  have hcopied := hr.toRaised.assignAll (shownValues w.heap caller (w.heap.shownKeys caller))
  refine ⟨r, hr, ?_⟩
  rw [prepare, Load.bind_of_done (Load.script_update _), hrealm,
    Load.bind_of_done (shownKeys_done hr.toRaised hf),
    Load.bind_of_done (copyKeys_done hr.toRaised hf (fun k hk => hf.mem_shownKeys.mp hk) hfree),
    Load.bind_of_done (bindModule_done hcopied hm (by simpa using hc) ht output)]
  rfl

/-- So a module is started. -/
theorem prepare_of_legible (hf : w.heap.Frank caller)
    (hfree : ∀ k ∈ w.heap.shownKeys caller, Script.Heap.Assignable k ∧ k ≠ protoKey)
    (hm : Legible w.heap module require exports filename)
    (hc : w.heap.addRealm.2.callable require)
    {text : String} (ht : Script.textOf w.heap filename = .ok text) (output : Path) :
    ∃ realm w', prepare caller output module w = .done (.ok realm, w') ∧
      Started caller w module require exports output (Path.ofString text) realm w' := by
  obtain ⟨r, hfinished, hrun⟩ := prepare_eq hf hfree hm hc ht output
  have hr := hfinished.toRaised
  have hcopied := hr.assignAll (shownValues w.heap caller (w.heap.shownKeys caller))
  have hbound := hcopied.assignAll
    (moduleBindings r.global module require exports output (Path.ofString text))
  refine ⟨_, _, hrun, rfl, rfl, rfl, hbound.old, fun n hn => hbound.realm_of_lt hn, ?built,
    ?fresh, fun k => ?_⟩
  case built => exact hbound.realm_self.trans hr.realm_self.symm
  case fresh => exact hr.above.global.trans_eq (congrArg Realm.global hbound.realm_self).symm
  have hfresh : freshGlobal w.heap k = w.heap.addRealm.2.own r.global k := by
    rw [freshGlobal, w.heap.finished_addRealm.1, hr.globalOwn_self]
  have hown := hcopied.own_assignAll
    (moduleBindings r.global module require exports output (Path.ofString text)) k
  rw [hr.own_assignAll, lookup_shownValues hf, ← hfresh] at hown
  simpa only [startedHeap, hbound.realm_self, hbound.globalOwn_self] using hown

theorem prepare_done (hc : w.heap.Copyable caller)
    (hm : Furnished w.heap module require exports file) (output : Path) :
    ∃ realm w', prepare caller output module w = .done (.ok realm, w') ∧
      Started caller w module require exports output file realm w' := by
  obtain ⟨filename, text, hlegible, ht, rfl⟩ := hm.legible
  exact prepare_of_legible hc.frank (fun k hk => hc.assignable (hc.frank.mem_shownKeys.mp hk))
    hlegible (callable_addRealm hm.callable) ht output

namespace Started

variable {output : Path} {realm : RealmRef} {w' : Workspace}

/-- Under a name that the host does not bind a module finds what its caller shows. -/
theorem inherits (hs : Started caller w module require exports output file realm w')
    (hk : k ∉ boundNames.map key) : w'.heap.globalOwn realm k =
      Property.received (freshGlobal w.heap k) (w.heap.shows caller k) := by
  rw [hs.globals, lookup_moduleBindings_eq_none.mpr hk, Property.received]

/-- What a new realm has no name for is shown by the module that finds it. -/
theorem shows_of_shows (hs : Started caller w module require exports output file realm w')
    (hk : k ∉ boundNames.map key) (hn : freshGlobal w.heap k = none)
    (hv : w.heap.shows caller k = some v) : w'.heap.shows realm k = some v := by
  rw [Heap.shows, hs.inherits hk, hn, hv]
  rfl

/-- Two runs of a module for different callers start with the same globals just in case the callers
show the same under the names that the host does not bind. -/
theorem alike_iff {home : RealmRef} {w'' : Workspace}
    (hs : Started caller w module require exports output file realm w')
    (hs' : Started home w module require exports output file realm w'') :
    (∀ k, w'.heap.globalOwn realm k = w''.heap.globalOwn realm k) ↔
      ∀ k ∉ boundNames.map key,
        Property.received (freshGlobal w.heap k) (w.heap.shows caller k) =
          Property.received (freshGlobal w.heap k) (w.heap.shows home k) := by
  constructor
  · intro h k hk
    rw [← hs.inherits hk, ← hs'.inherits hk, h k]
  · intro h k
    by_cases hk : k ∈ boundNames.map key
    · rw [hs.globals, hs'.globals, hs.built, hs'.built]
      obtain ⟨v, hv⟩ := Option.ne_none_iff_exists'.mp
        (mt lookup_moduleBindings_eq_none.mp (not_not_intro hk))
      rw [hv, Property.received, Property.received, Property.assigned_received,
        Property.assigned_received]
    · rw [hs.inherits hk, hs'.inherits hk, h k hk]

end Started

/-! ## Chains of modules -/

/-- A value has come down to a realm: the realm shows it, or it is the realm of a module that was
started for one to which the value had come down, and that still shows what it found. -/
inductive Inherited (k : Key) (v : Value) : Workspace → RealmRef → Prop
  | shown {w : Workspace} {realm : RealmRef} (hk : w.heap.shows realm k = some v) :
    Inherited k v w realm
  | nested {w w₁ w₂ : Workspace} {caller realm : RealmRef} {module : Ref}
    {require exports : Value} {output file : Path} (above : Inherited k v w caller)
    (copyable : w.heap.Copyable caller) (furnished : Furnished w.heap module require exports file)
    (new : freshGlobal w.heap k = none)
    (prepared : prepare caller output module w = .done (.ok realm, w₁))
    (kept : w₂.heap.shows realm k = w₁.heap.shows realm k) : Inherited k v w₂ realm

/-- What has come down to a realm is shown there, by induction on the chain of modules. -/
theorem Inherited.shows (hi : Inherited k v w caller) (hk : k ∉ boundNames.map key) :
    w.heap.shows caller k = some v := by
  induction hi with
  | shown h => exact h
  | @nested w w₁ w₂ caller realm _ _ _ output _ _ hc hm hn hp hkept ih =>
    obtain ⟨realm', w', hp', hs⟩ := prepare_done hc hm output
    obtain ⟨rfl, rfl⟩ : realm' = realm ∧ w' = w₁ := by simpa [hp'] using hp
    rw [hkept, hs.shows_of_shows hk hn ih]

/-! ## Running a module -/

/-- A module begins with the globals of its caller, whatever the host itself shows: what the caller
shows, and what has come down to it through a chain of modules of any length, is found in the global
object as the text of the module starts. So it starts as it does for the host only where the caller
shows what the host does. -/
theorem globals_of_caller {output : Path} {text : String} (hc : w.heap.Copyable caller)
    (hm : Furnished w.heap module require exports file)
    (ht : w.world.tree.readText output = .ok text) (hz : '\x00' ∉ text.toList) :
    ∃ realm w', prepare caller output module w = .done (.ok realm, w') ∧
      run caller output module w = Load.script (Script.runText realm false text) w' ∧
      Started caller w module require exports output file realm w' ∧
      (∀ k v, k ∉ boundNames.map key → Inherited k v w caller →
        (w'.heap.globalOwn realm k).bind Property.value? = some v) ∧
      ∀ home, w.heap.Copyable home → ∃ w'',
        prepare home output module w = .done (.ok realm, w'') ∧
        ((∀ k, w'.heap.globalOwn realm k = w''.heap.globalOwn realm k) ↔
          ∀ k ∉ boundNames.map key,
            Property.received (freshGlobal w.heap k) (w.heap.shows caller k) =
              Property.received (freshGlobal w.heap k) (w.heap.shows home k)) := by
  obtain ⟨realm, w', hp, hs⟩ := prepare_done hc hm output
  refine ⟨realm, w', hp, ?run, hs, fun k v hk hi => ?found, fun home hhome => ?alike⟩
  case run =>
    rw [run, Load.bind_of_done (Load.readFile_of_ok ht), Load.bind_of_done hp,
      Load.bind_of_done (Load.withoutNul_of_notMem hz)]
  case found =>
    rw [hs.inherits hk, hi.shows hk, Property.received, Option.bind_some, Property.value?_assigned]
  case alike =>
    obtain ⟨realm', w'', hp', hs'⟩ := prepare_done hhome hm output
    obtain rfl : realm' = realm := hs'.next.trans hs.next.symm
    exact ⟨w'', hp', hs.alike_iff hs'⟩

/-- A heap with a module object and two realms, the second of which shows a name that the first
one does not. -/
def leaky : Heap :=
  { Heap.empty with
    objects := #[⟨.tagged "global", none, true, []⟩,
      ⟨.tagged "global", none, true, [(key "leaked", .plain (.bool true))]⟩,
      ⟨.native (.require "") 0, none, true, []⟩,
      ⟨.plain, none, true, [(key "filename", .plain (.text "/a.js")),
        (exportsKey, .plain .undefined), (key "require", .plain (.obj 2))]⟩]
    realms := #[{ (default : Realm) with global := 0 }, { (default : Realm) with global := 1 }] }

/-- A workspace with this heap and an empty file. -/
def leakyWorkspace : Workspace :=
  ⟨⟨⟨[(["a.js".toList], .file .empty ⟨0⟩ 0)], []⟩, [], ⟨0⟩, 1, #[]⟩, leaky, #[]⟩

theorem furnished_leaky :
    Furnished leaky 3 (.obj 2) .undefined (Path.ofString "/a.js") where
  require_held := ⟨true, true, true, rfl⟩
  callable := rfl
  exports_held := ⟨true, true, true, rfl⟩
  filename_held := ⟨key "/a.js", "/a.js", ⟨true, true, true, rfl⟩, rfl, rfl⟩

/-- A module finds a name that its caller shows and the host does not. -/
theorem globals_of_caller_leaky : leaky.Copyable 0 ∧ leaky.Copyable 1 ∧
    Furnished leaky 3 (.obj 2) .undefined (Path.ofString "/a.js") ∧
    leakyWorkspace.world.tree.readText "/a.js" = .ok "" ∧
    leaky.shows 0 (key "leaked") = none ∧
    ∃ realm w', run 1 "/a.js" 3 leakyWorkspace = Load.script (Script.runText realm false "") w' ∧
      (w'.heap.globalOwn realm (key "leaked")).bind Property.value? = some (.bool true) := by
  have hcopyable : leaky.Copyable 0 ∧ leaky.Copyable 1 := by decide +kernel
  have ht : leakyWorkspace.world.tree.readText "/a.js" = .ok "" := rfl
  obtain ⟨realm, w', -, hrun, -, hfound, -⟩ :=
    globals_of_caller (w := leakyWorkspace) hcopyable.2 furnished_leaky ht (by simp)
  exact ⟨hcopyable.1, hcopyable.2, furnished_leaky, ht, rfl, realm, w', hrun,
    hfound _ _ (by decide) (.shown rfl)⟩

end Sandbox
end LoadHook
