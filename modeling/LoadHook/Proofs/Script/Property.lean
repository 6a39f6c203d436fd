import LoadHook.Script.Evaluation
import Mathlib.Data.List.Perm.Subperm

/-!
# Properties that run no script

Reading and setting a property runs a script only where an accessor is found. Here is what
happens elsewhere: an own data property is read and replaced in place, and a property that is
found nowhere, or only as writable data further up, is added to the object itself. Nothing else
of the heap changes.
-/
namespace LoadHook.Script

variable {h h' : Heap} {r s : Ref} {k l : Key} {p q : Property} {o : Object} {v u : Value}
  {n m : Nat}

/-- A property that is found in a list is in the list. -/
theorem mem_of_findKey {props : List (Key × Property)} {k : Key} {p : Property}
    (hk : findKey k props = some p) : (k, p) ∈ props := by
  induction props with
  | nil => cases hk
  | cons q rest ih =>
    obtain ⟨n, q⟩ := q
    rw [findKey] at hk
    split at hk
    · next he =>
      rw [Option.some.injEq] at hk
      rw [eq_of_beq he, hk]
      exact List.mem_cons_self
    · exact List.mem_cons_of_mem _ (ih hk)

namespace Object

/-- A writable property is no unit of a string object. -/
theorem unitProperty_of_writable {t : Text.Utf16} (hk : (o.own k).map Property.content = some
    (.data v true)) (ho : o.kind = .string t) : unitProperty t k = none := by
  simp only [own, ho] at hk
  cases hu : unitProperty t k with
  | none => rfl
  | some u =>
    simp only [hu, Option.some_or, Option.map_some, Option.some.injEq] at hk
    simp only [unitProperty] at hu
    split at hu
    · simp only [Option.some.injEq] at hu
      subst hu
      simp at hk
    · cases hi : index? k with
      | none => simp [hi] at hu
      | some i =>
        simp only [hi, Option.bind_some, Option.map_eq_some_iff] at hu
        obtain ⟨u', -, rfl⟩ := hu
        simp at hk

/-- A writable property that is put again is found again. -/
theorem own_put_of_writable (hk : (o.own k).map Property.content = some (.data v true)) :
    (o.put k p).own k = some p := by
  cases ho : o.kind with
  | string t => simp [own, put, ho, unitProperty_of_writable hk ho]
  | _ => simp [own, put, ho]

/-- Putting a property leaves the others alone. -/
theorem own_put_of_ne (hk : l ≠ k) : (o.put k p).own l = o.own l := by
  cases ho : o.kind <;> simp [own, put, ho, findKey_putKey_of_ne hk]

/-- A key that is no more than a name for an object: no element of an array, and not its length. -/
def Ordinary (o : Object) (k : Key) : Prop :=
  o.isArray = false ∨ k ≠ lengthKey ∧ index? k = none

theorem Ordinary.not_length (hk : o.Ordinary k) : (o.isArray && k == lengthKey) = false := by
  rcases hk with ho | ⟨hl, -⟩
  · rw [ho, Bool.false_and]
  · rw [beq_eq_false_iff_ne.mpr hl, Bool.and_false]

theorem Ordinary.define_eq (hk : o.Ordinary k) (d : Descriptor) :
    o.define k d = o.defineNamed k d := by
  rcases hk with ho | ⟨-, hi⟩
  · simp only [isArray] at ho
    simp only [define]
    cases hkind : o.kind <;> simp_all
  · simp only [define, hi]
    cases o.kind <;> rfl

end Object

namespace Heap

@[simp] theorem size_modifyObject (f : Object → Object) :
    (h.modifyObject r f).objects.size = h.objects.size := by simp [modifyObject]
@[simp] theorem size_putOwn : (h.putOwn r k p).objects.size = h.objects.size := by simp [putOwn]
@[simp] theorem realm_putOwn (n : RealmRef) : (h.putOwn r k p).realm n = h.realm n := rfl

@[simp] theorem size_addObject : (h.addObject o).2.objects.size = h.objects.size + 1 := by
  simp [addObject]

@[simp] theorem ref_addObject : (h.addObject o).1 = h.objects.size := rfl

theorem object_modifyObject_self (f : Object → Object) (hr : r < h.objects.size) :
    (h.modifyObject r f).object r = f (h.object r) := by
  simp [modifyObject, object, Array.getElem?_modify, Array.getElem?_eq_getElem hr]

theorem object_modifyObject_of_ne (f : Object → Object) (hs : s ≠ r) :
    (h.modifyObject r f).object s = h.object s := by
  simp [modifyObject, object, Array.getElem?_modify, Ne.symm hs]

theorem modifyObject_congr {f g : Object → Object} (hfg : f (h.object r) = g (h.object r)) :
    h.modifyObject r f = h.modifyObject r g := by
  have : h.objects.modify r f = h.objects.modify r g := by
    apply Array.ext_getElem?
    intro i
    by_cases hi : r = i
    · subst hi
      simp only [object] at hfg
      cases hr : h.objects[r]? with
      | none => simp [Array.getElem?_modify, hr]
      | some o => simpa [Array.getElem?_modify, hr] using hfg
    · simp [Array.getElem?_modify, hi]
  simp [modifyObject, this]

theorem object_putOwn_self (hr : r < h.objects.size) :
    (h.putOwn r k p).object r = (h.object r).put k p := object_modifyObject_self _ hr

theorem object_putOwn_of_ne (hs : s ≠ r) : (h.putOwn r k p).object s = h.object s :=
  object_modifyObject_of_ne _ hs

theorem object_addObject_self : (h.addObject o).2.object h.objects.size = o := by
  simp [addObject, object]

theorem object_addObject_of_lt (hs : s < h.objects.size) :
    (h.addObject o).2.object s = h.object s := by
  simp [addObject, object, Array.getElem?_push, Nat.ne_of_lt hs]

/-- An object with a property is in the heap. -/
theorem lt_size_of_own (hk : h.own r k = some p) : r < h.objects.size := by
  refine Nat.lt_of_not_le fun hr => ?_
  have : h.object r = default := by simp [object, Array.getElem?_eq_none hr]
  simp [own, this, Object.own, default, findKey] at hk

/-- An object holds a value under a key: as data, and itself. -/
def Holds (h : Heap) (r : Ref) (k : Key) (v : Value) : Prop :=
  ∃ writable e c, h.own r k = some ⟨.data v writable, e, c⟩

/-- It holds it as long as the object is as it was. -/
theorem Holds.of_old (hk : h.Holds r k v)
    (hold : ∀ s < h.objects.size, h'.object s = h.object s) : h'.Holds r k v := by
  obtain ⟨writable, e, c, hown⟩ := hk
  exact ⟨writable, e, c, by rw [own, hold _ (lt_size_of_own hown), ← own, hown]⟩

/-- A property is found in the object itself first. -/
theorem find_of_own (hk : h.own r k = some p) : h.find r k = some p := by
  simp only [own] at hk
  simp [find, findFrom, hk]

/-- What an object below the top does not have itself is looked for at the top. -/
theorem find_of_own_eq_none (hk : h.own r k = none) (hp : (h.object r).proto = some s)
    (hs : s < h.objects.size) (ht : (h.object s).proto = none) : h.find r k = h.own s k := by
  obtain ⟨n, hn⟩ : ∃ n, h.objects.size = n + 1 :=
    Nat.exists_eq_add_one_of_ne_zero (Nat.ne_of_gt (Nat.zero_lt_of_lt hs))
  simp only [own] at hk
  simp only [find, hn, findFrom, hk, hp, ht, own]
  cases (h.object s).own k <;> rfl

/-! ## Reading along the way up -/

/-- What is read of an object under a key, at most data being found on the way: its own value, or
the one of the object `n` steps above it, or nothing if no object above it has the key. -/
inductive Climbs (h : Heap) (k : Key) : Nat → Ref → Value → Prop
  | own {r : Ref} {p : Property} {v : Value} (found : h.own r k = some p)
    (data : p.value? = some v) : Climbs h k 0 r v
  | nowhere {r : Ref} (inside : r < h.objects.size) (missing : h.own r k = none)
    (top : (h.object r).proto = none) : Climbs h k 0 r .undefined
  | above {r up : Ref} {n : Nat} {v : Value} (inside : r < h.objects.size)
    (missing : h.own r k = none) (below : (h.object r).proto = some up)
    (climb : Climbs h k n up v) : Climbs h k (n + 1) r v

/-- What is read of an object under a key without running a script. -/
def Reads (h : Heap) (r : Ref) (k : Key) (v : Value) : Prop := ∃ n, h.Climbs k n r v

theorem Holds.reads (hk : h.Holds r k v) : h.Reads r k v := by
  obtain ⟨writable, e, c, hown⟩ := hk
  exact ⟨0, .own hown rfl⟩

namespace Climbs

/-- A way up from an object has one length, and one value is read on it. -/
theorem unique (hc : h.Climbs k n r v) (hc' : h.Climbs k m r u) : n = m ∧ v = u := by
  induction hc generalizing m with
  | own found data =>
    cases hc' with
    | own found' data' =>
      cases found.symm.trans found'
      exact ⟨rfl, Option.some.inj (data.symm.trans data')⟩
    | nowhere _ missing => cases found.symm.trans missing
    | above _ missing => cases found.symm.trans missing
  | nowhere _ missing top =>
    cases hc' with
    | own found => cases found.symm.trans missing
    | nowhere => exact ⟨rfl, rfl⟩
    | above _ _ below => cases below.symm.trans top
  | above _ missing below _ ih =>
    cases hc' with
    | own found => cases found.symm.trans missing
    | nowhere _ _ top => cases below.symm.trans top
    | above _ _ below' climb =>
      obtain rfl := Option.some.inj (below.symm.trans below')
      obtain ⟨rfl, rfl⟩ := ih climb
      exact ⟨rfl, rfl⟩

/-- No object is met twice on the way up, since the way from there is of another length. -/
theorem visited (hc : h.Climbs k n r v) : ∃ rs : List Ref, rs.Nodup ∧ rs.length = n + 1 ∧
    ∀ s ∈ rs, s < h.objects.size ∧ ∃ m ≤ n, h.Climbs k m s v := by
  induction hc with
  | own found data =>
    exact ⟨[_], by simp, rfl, List.forall_mem_singleton.mpr
      ⟨lt_size_of_own found, 0, Nat.le_refl 0, .own found data⟩⟩
  | nowhere inside missing top =>
    exact ⟨[_], by simp, rfl, List.forall_mem_singleton.mpr
      ⟨inside, 0, Nat.le_refl 0, .nowhere inside missing top⟩⟩
  | @above r up n v inside missing below climb ih =>
    obtain ⟨rs, hnodup, hlength, hrs⟩ := ih
    have hself := Climbs.above inside missing below climb
    refine ⟨r :: rs, List.nodup_cons.mpr ⟨fun hr => ?_, hnodup⟩, by simp [hlength],
      List.forall_mem_cons.mpr ⟨⟨inside, n + 1, Nat.le_refl _, hself⟩, fun s hs => ?_⟩⟩
    · obtain ⟨-, m, hm, hclimb⟩ := hrs r hr
      exact absurd (hself.unique hclimb).1 (by omega)
    · obtain ⟨hlt, m, hm, hclimb⟩ := hrs s hs
      exact ⟨hlt, m, Nat.le_succ_of_le hm, hclimb⟩

/-- So the way up is shorter than the heap is large. -/
theorem lt_size (hc : h.Climbs k n r v) : n < h.objects.size := by
  obtain ⟨rs, hnodup, hlength, hrs⟩ := hc.visited
  have hsub : rs ⊆ List.range h.objects.size := fun s hs => List.mem_range.mpr (hrs s hs).1
  have hle := (List.subperm_of_subset hnodup hsub).length_le
  rwa [hlength, List.length_range] at hle

theorem findFrom (hc : h.Climbs k n r v) {fuel : Nat} (hn : n < fuel) :
    h.findFrom fuel r k = none ∧ v = .undefined ∨
      ∃ p, h.findFrom fuel r k = some p ∧ p.value? = some v := by
  obtain ⟨fuel, rfl⟩ := Nat.exists_eq_add_one_of_ne_zero (Nat.ne_of_gt (Nat.zero_lt_of_lt hn))
  induction hc generalizing fuel with
  | @own r p v found data =>
    rw [Heap.own] at found
    exact .inr ⟨p, by simp only [Heap.findFrom, found], data⟩
  | nowhere _ missing top =>
    rw [Heap.own] at missing
    exact .inl ⟨by simp only [Heap.findFrom, missing, top], rfl⟩
  | @above r up n v _ missing below climb ih =>
    obtain ⟨fuel, rfl⟩ := Nat.exists_eq_add_one_of_ne_zero (show fuel ≠ 0 by omega)
    rw [Heap.own] at missing
    have hstep : h.findFrom (fuel + 1 + 1) r k = h.findFrom (fuel + 1) up k := by
      simp only [Heap.findFrom, missing, below]
    rw [hstep]
    exact ih fuel (by omega)

/-- What is read stays the same as long as the objects that there were do. -/
theorem of_old (hsize : h.objects.size ≤ h'.objects.size)
    (hold : ∀ s < h.objects.size, h'.object s = h.object s) (hc : h.Climbs k n r v) :
    h'.Climbs k n r v := by
  induction hc with
  | own found data =>
    exact .own (by rw [Heap.own, hold _ (lt_size_of_own found), ← Heap.own, found]) data
  | nowhere inside missing top =>
    exact .nowhere (Nat.lt_of_lt_of_le inside hsize)
      (by rw [Heap.own, hold _ inside, ← Heap.own, missing]) (by rw [hold _ inside, top])
  | above inside missing below _ ih =>
    exact .above (Nat.lt_of_lt_of_le inside hsize)
      (by rw [Heap.own, hold _ inside, ← Heap.own, missing]) (by rw [hold _ inside, below]) ih

end Climbs

/-- One value is read of an object under a key. -/
theorem Reads.unique (hv : h.Reads r k v) (hu : h.Reads r k u) : v = u := by
  obtain ⟨n, hn⟩ := hv
  obtain ⟨m, hm⟩ := hu
  exact (hn.unique hm).2

end Heap

/-! ## Computations that ask nothing -/

namespace Eval

variable {α β : Type} {x : Eval α} {f : α → Eval β} {a : α} {h' : Heap}

/-- Going on after a computation that has ended with a value. -/
theorem bind_of_done (hx : x h = .done (.ok a, h')) : (x >>= f) h = f a h' := by
  change Eval.bind x f h = f a h'
  simp [Eval.bind, hx]

@[simp] theorem read_bind (g : Heap → α) : (Eval.read g >>= f) h = f (g h) h := rfl
@[simp] theorem pure_apply : (Pure.pure a : Eval α) h = .done (.ok a, h) := rfl
@[simp] theorem update_apply (g : Heap → α × Heap) :
    Eval.update g h = .done (.ok (g h).1, (g h).2) := rfl

end Eval

/-! ## Reading and setting -/

namespace Machine

variable (m : Machine) {realm : RealmRef} {w e c : Bool}

/-- A value that an object holds is read as it is. -/
theorem getRef_of_holds (hk : h.Holds r k v) : m.getRef realm r k h = .done (.ok v, h) := by
  obtain ⟨w, e, c, hown⟩ := hk
  simp only [getRef, Eval.read_bind, Heap.find_of_own hown, valueOf]
  rfl

/-- What is read of an object is the value of its property. -/
theorem getRef_of_reads (hk : h.Reads r k v) :
    m.getRef realm r k h = .done (.ok v, h) := by
  obtain ⟨n, hc⟩ := hk
  rw [getRef, Eval.read_bind, Heap.find]
  rcases hc.findFrom (Nat.lt_succ_of_lt hc.lt_size) with ⟨hnone, rfl⟩ | ⟨⟨content, e, c⟩, hsome, hv⟩
  · rw [hnone]
    rfl
  · rw [hsome]
    cases content with
    | data u w => cases hv; rfl
    | accessor g s => cases hv

/-- A property that is found nowhere or as writable data is put by the receiver. -/
theorem assign_of_found {u : Value}
    (hf : ∀ p, h.find r k = some p → ∃ v, p.content = .data v true)
    (hp : putData realm r k u h = .done (.ok true, h.putOwn r k p)) :
    m.assign realm true (.obj r) k u h = .done (.ok (), h.putOwn r k p) := by
  have hs : m.setRef realm r k u (.obj r) h = .done (.ok true, h.putOwn r k p) := by
    simp only [setRef, Eval.read_bind]
    cases hfind : h.find r k with
    | none => exact hp
    | some q =>
      obtain ⟨v, hv⟩ := hf q hfind
      simp only [Option.map_some, hv]
      exact hp
  have ht : m.set realm (.obj r) k u h = .done (.ok true, h.putOwn r k p) := by
    unfold Machine.set
    rw [Eval.read_bind, prototypeOf]
    exact hs
  rw [assign, Eval.bind_of_done ht]
  simp

/-- Setting an own writable property replaces its value. -/
theorem assign_own {u : Value} (hk : h.own r k = some ⟨.data v true, e, c⟩)
    (hn : (h.object r).Ordinary k) :
    m.assign realm true (.obj r) k u h =
      .done (.ok (), h.putOwn r k ⟨.data u true, e, c⟩) := by
  have ho : (h.object r).own k = some ⟨.data v true, e, c⟩ := hk
  have hd : (h.object r).define k { value := some u } =
      some ((h.object r).put k ⟨.data u true, e, c⟩) := by
    simp [hn.define_eq, Object.defineNamed, Descriptor.apply, Descriptor.isAccessor, ho]
  refine assign_of_found m (fun q hq => ?_) ?_
  · rw [Heap.find_of_own hk, Option.some.injEq] at hq
    exact ⟨v, by rw [← hq]⟩
  · simp only [putData, Eval.read_bind, hn.not_length,
      Bool.false_eq_true, if_false, ho, Eval.update_apply, Heap.define, hd, Heap.putOwn]
    exact congrArg (fun h => Dialogue.done (Except.ok true, h)) (Heap.modifyObject_congr rfl)

/-- Setting a property that is found nowhere, or as writable data further up, adds it. -/
theorem assign_new {u : Value} (hk : h.own r k = none) (hx : (h.object r).extensible = true)
    (hf : ∀ p, h.find r k = some p → ∃ v, p.content = .data v true)
    (hn : (h.object r).Ordinary k) :
    m.assign realm true (.obj r) k u h = .done (.ok (), h.putOwn r k (.plain u)) := by
  have ho : (h.object r).own k = none := hk
  have hd : (h.object r).define k (.ofProperty (.plain u)) =
      some ((h.object r).put k (.plain u)) := by
    simp [hn.define_eq, Object.defineNamed, Descriptor.ofProperty,
      Descriptor.fresh, Descriptor.isAccessor, Property.plain, ho, hx]
  refine assign_of_found m hf ?_
  simp only [putData, Eval.read_bind, hn.not_length,
    Bool.false_eq_true, if_false, ho, Eval.update_apply, Heap.define, hd, Heap.putOwn]
  exact congrArg (fun h => Dialogue.done (Except.ok true, h)) (Heap.modifyObject_congr rfl)

/-- Setting an own property that cannot be assigned to throws an error, and changes nothing else. -/
theorem assign_readOnly (hk : h.own r k = some ⟨.data u false, e, c⟩) :
    ∃ thrown o, m.assign realm true (.obj r) k v h =
      .done (.error (.thrown thrown), (h.addObject o).2) := by
  have hset : m.set realm (.obj r) k v h = .done (.ok false, h) := by
    unfold Machine.set
    rw [Eval.read_bind, prototypeOf]
    simp only [setRef, Eval.read_bind, Heap.find_of_own hk, Option.map_some]
    rfl
  refine ⟨.obj h.objects.size, ⟨.error, (h.realm realm).errorProtos.lookup .type, true,
    [(key "message", .hidden (.text ("'" ++ keyText k ++ "' is read-only"))), stackProperty]⟩, ?_⟩
  rw [assign, Eval.bind_of_done hset]
  rfl

end Machine
end LoadHook.Script
