import LoadHook.Proofs.Script.Lookup
import LoadHook.Proofs.Script.Storing
import LoadHook.Script.Evaluation

/-!
# Assigning to data that are being made

Assignment to an object that shows data runs no script, and changes that object only: it puts a
property, or puts the object below another one. Where two objects and the values are alike, both
assignments leave objects that are alike, and both succeed or throw the same error.
-/
namespace LoadHook.Script

open Machine

variable {a b : View} {n : Nat} {r r' s : Ref} {k : Key} {v v' : Value} {h : Heap}
  {realm own : RealmRef} {o q : Object} {p : Option Property}

/-- An object is one of those that are still being made. -/
structure View.Owns (a : View) (r : Ref) : Prop where
  above : ground.objects.size ≤ r
  inside : r < a.heap.objects.size
  making : r ∈ a.mine

theorem View.Owns.not_sees (hr : a.Owns r) : ¬ a.Sees r := fun h => h.made hr.making

/-- Whether a computation does no more than end with a value, or throw an error of a kind with a
message. -/
def Brief (realm : RealmRef) (x : Eval Unit) : Prop :=
  x = pure () ∨ ∃ kind text, x = raise realm kind text

/-! ## Changing one object -/

namespace Heap

/-- A heap with an object in the place of another one. -/
def withObject (h : Heap) (r : Ref) (o : Object) : Heap := h.modifyObject r fun _ => o

theorem withObject_object (h : Heap) (r : Ref) : h.withObject r (h.object r) = h := by
  have hcongr : h.withObject r (h.object r) = h.modifyObject r id := modifyObject_congr rfl
  rw [hcongr, modifyObject]
  have hid : h.objects.modify r id = h.objects := by
    apply Array.ext_getElem?
    intro i
    simp [Array.getElem?_modify]
  rw [hid]

theorem modifyObject_eq (h : Heap) (r : Ref) (f : Object → Object) :
    h.modifyObject r f = h.withObject r (f (h.object r)) := modifyObject_congr rfl

theorem define_of_eq {d : Descriptor} (hq : (h.object r).define k d = some q) :
    h.define r k d = (true, h.withObject r q) := by
  simp only [define, hq, withObject]

end Heap

/-! ## Putting a value -/

/-- What a value is put into: the object with the value as a property, and whether that could be, or
the message of the error that is thrown. -/
def Object.stored (o : Object) (k : Key) (v : Value) : Except String (Object × Bool) :=
  if o.isArray && k == lengthKey then
    match v with
    | .num x =>
      let n := Numeric.toUInt32 x
      if n.toNat.toFloat == x then .ok ((o.setLength n.toNat {}).getD (o, false))
      else .error "invalid array length"
    | _ => .error "invalid array length"
  else match o.own k with
    | some p =>
      match p.content with
      | .data _ true => .ok (((o.define k { value := some v }).map (·, true)).getD (o, false))
      | _ => .ok (o, false)
    | none =>
      .ok (((o.define k (.ofProperty (.plain v))).map (·, true)).getD (o, false))

theorem define_eq (h : Heap) (r : Ref) (k : Key) (d : Descriptor) :
    h.define r k d = ((((h.object r).define k d).map (·, true)).getD (h.object r, false)).swap.map
      id (h.withObject r) := by
  cases hq : (h.object r).define k d with
  | some q => exact Heap.define_of_eq hq
  | none =>
    simp only [Heap.define, hq, Option.map_none, Option.getD_none, Prod.swap_prod_mk,
      Prod.map_apply, id_eq, Heap.withObject_object]

theorem putData_eq (realm : RealmRef) (r : Ref) (k : Key) (v : Value) (h : Heap) :
    putData realm r k v h =
      match (h.object r).stored k v with
      | .ok (o, done) => .done (.ok done, h.withObject r o)
      | .error text => raise realm .range text h := by
  have hkept : h.withObject r (h.object r) = h := h.withObject_object r
  simp only [putData, Eval.read_bind, Object.stored]
  split
  · cases v with
    | num x =>
      dsimp only
      split
      · cases hq : (h.object r).setLength (Numeric.toUInt32 x).toNat {} with
        | some q => rfl
        | none =>
          simp only [Option.getD_none, hkept]
          rfl
      · rfl
    | _ => rfl
  · cases hp : (h.object r).own k with
    | none => simp only [Eval.update_apply, define_eq]; rfl
    | some p =>
      obtain ⟨content, e, c⟩ := p
      dsimp only
      split
      · simp only [Eval.update_apply, define_eq]; rfl
      · simp only [hkept]; rfl

section Exact

variable {V : Value → Value → Prop} {o o' : Object} (hV : Exact V)
include hV

/-- Values that are related are the same number, or are both no numbers. -/
theorem Exact.num_cases (hv : V v v') :
    (∃ x, v = .num x ∧ v' = .num x) ∨ (∀ x, v ≠ .num x) ∧ ∀ x, v' ≠ .num x := by
  cases v with
  | num x => exact .inl ⟨x, rfl, hV.eq _ _ hv rfl⟩
  | obj r =>
    refine .inr ⟨by simp, fun x e => ?_⟩
    have hobjects := hV.objects _ _ hv
    rw [e] at hobjects
    cases hobjects
  | _ =>
    cases hV.eq _ _ hv rfl
    exact .inr ⟨by simp, by simp⟩

/-- Storing values that are alike in objects that are alike. -/
theorem Object.Like.stored (h : o.Like V o') (k : Key) (hv : V v v') :
    (∃ q q' done, o.stored k v = .ok (q, done) ∧ o'.stored k v' = .ok (q', done) ∧
      q.Like V q') ∨ ∃ text, o.stored k v = .error text ∧ o'.stored k v' = .error text := by
  unfold Object.stored
  rw [h.isArray_eq]
  by_cases hlength : (o.isArray && k == lengthKey) = true
  · simp only [hlength, if_true]
    rcases hV.num_cases hv with ⟨x, rfl, rfl⟩ | ⟨hnum, hnum'⟩
    · dsimp only
      split
      · obtain ⟨harray, -⟩ := Bool.and_eq_true_iff.mp hlength
        obtain ⟨q, q', whole, hq, hq', hlike⟩ := h.setLength hV harray (Numeric.toUInt32 x).toNat
        exact .inl ⟨q, q', whole, by rw [hq]; rfl, by rw [hq']; rfl, hlike⟩
      · exact .inr ⟨_, rfl, rfl⟩
    · refine .inr ⟨"invalid array length", ?_, ?_⟩
      · cases v <;> first | rfl | exact absurd rfl (hnum _)
      · cases v' <;> first | rfl | exact absurd rfl (hnum' _)
  · simp only [hlength, Bool.false_eq_true, if_false]
    have hk : k = lengthKey → o.isArray = false := by
      rintro rfl
      simpa using hlength
    left
    rcases h.own k with ⟨hnone, hnone'⟩ | ⟨p, p', hp, hp', hlike⟩
    · obtain ⟨q, q', hq, hq', hlike⟩ := h.define hV k hk (.plain hv)
        (defineNamed_of_none hnone h.extensible.1 v) (defineNamed_of_none hnone' h.extensible.2 v')
      exact ⟨q, q', true, by simp only [hnone, hq]; rfl, by simp only [hnone', hq']; rfl, hlike⟩
    · obtain ⟨u, u', hu, hu', -⟩ := hlike.content
      obtain ⟨q, q', hq, hq', hlike⟩ := h.define hV k hk (hlike.replace hv)
        (defineNamed_of_some hp ⟨u, hu⟩ v) (defineNamed_of_some hp' ⟨u', hu'⟩ v')
      exact ⟨q, q', true, by simp only [hp, hu, hq]; rfl, by simp only [hp', hu', hq']; rfl, hlike⟩

end Exact

/-! ## Putting an object below another one -/

/-- An object below another one, or below none. -/
def Object.under (o : Object) (t : Option Ref) : Object := { o with proto := t }

/-- An object below the one that a value is; a value that is neither an object nor null leaves it
where it is. -/
def Object.below (o : Object) : Value → Object
  | .obj p => o.under (some p)
  | .null => o.under none
  | _ => o

/-- Objects that are alike below values that are alike. -/
theorem Object.Like.below {o o' : Object} (h : o.Like (Alike a b n) o') (hv : Alike a b n v v') :
    (o.below v).Like (Alike a b n) (o'.below v') := by
  cases v with
  | obj p =>
    obtain ⟨-, p', -, rfl, -⟩ := hv.of_obj
    exact ⟨h.data, h.kind, h.extensible, .like hv, h.props, h.measured⟩
  | null =>
    cases hv.eq_of_ref?_eq_none rfl
    exact ⟨h.data, h.kind, h.extensible, .nothing, h.props, h.measured⟩
  | undefined | bool | num | str =>
    cases hv.eq_of_ref?_eq_none rfl
    exact h

theorem find?_protoSetter : (BuiltIn.ofOwner .objectPrototype).find?
    (·.name == "set __proto__") = some BuiltIn.protoAccessors[1] := rfl

/-- Putting an object below another one, as long as that makes no circle. -/
theorem changeProto_eq {t : Option Ref} (hx : (h.object r).extensible)
    (ht : ∀ p, t = some p → (p == r || h.isAbove (h.objects.size + 1) r p) = false) :
    BuiltIn.changeProto h r t = (true, h.withObject r ((h.object r).under t)) := by
  by_cases hsame : ((h.object r).proto == t) = true
  · have hkept : (h.object r).under t = h.object r := by
      rw [Object.under, ← beq_iff_eq.mp hsame]
    rw [hkept, Heap.withObject_object]
    simp only [BuiltIn.changeProto, hsame, if_true]
  · have hput : h.modifyObject r (fun o => o.under t) = _ := Heap.modifyObject_eq h r _
    rw [← hput]
    cases t with
    | none => simp only [BuiltIn.changeProto, hsame, hx]; rfl
    | some p => simp only [BuiltIn.changeProto, hsame, hx, ht p rfl]; rfl

/-- What is called when an object is put below another one. -/
theorem call_protoSetter_eq (realm : RealmRef) (hs : (h.object s).kind = .native protoSetter own) :
    standardMachine.call realm (.obj s) (.obj r) [v] h =
      BuiltIn.protoAccessors[1].run (machine (depthLimit - 1)) own (.obj r) [v] h := by
  have hstart : standardMachine.call realm (.obj s) (.obj r) [v] h =
      (machine (depthLimit - 1)).callObject realm (.obj s) (.obj r) [v] h := rfl
  rw [hstart, callObject, Eval.read_bind, hs]
  simp only [callNative, protoSetter, BuiltIn.call, find?_protoSetter]

/-- What is called to put an object that is being made below another one. -/
theorem call_protoSetter (realm : RealmRef) (ha : ground.Extends a.heap) (hr : a.Owns r)
    (hx : (a.heap.object r).extensible) (hs : (a.heap.object s).kind = .native protoSetter own)
    (hv : Alike a a n v v) :
    standardMachine.call realm (.obj s) (.obj r) [v] a.heap =
      .done (.ok .undefined, a.heap.withObject r ((a.heap.object r).below v)) := by
  have hput {t : Option Ref} (ht : ∀ p, t = some p →
      (p == r || a.heap.isAbove (a.heap.objects.size + 1) r p) = false) :
      (do
        if !(← Eval.update (BuiltIn.changeProto · r t)) then
          typeError own "object is not extensible"
        return .undefined : Eval Value) a.heap =
        .done (.ok .undefined, a.heap.withObject r ((a.heap.object r).under t)) := by
    have hchange : Eval.update (BuiltIn.changeProto · r t) a.heap =
        .done (.ok true, a.heap.withObject r ((a.heap.object r).under t)) := by
      rw [Eval.update_apply, changeProto_eq hx ht]
    exact (Eval.bind_of_done hchange).trans rfl
  rw [call_protoSetter_eq realm hs]
  cases v with
  | obj p =>
    obtain ⟨-, -, -, -, hp, -⟩ := hv.of_obj
    have hne : (p == r) = false := beq_eq_false_iff_ne.mpr fun e => hr.not_sees (e ▸ hp)
    exact @hput (some p) fun q hq => by
      cases hq
      rw [hne, isAbove_like ha hv hr.above hr.not_sees, Bool.or_self]
  | null => exact @hput none (by simp)
  | undefined | bool | num | str =>
    have hkept := a.heap.withObject_object r
    simp only [Object.below, hkept]
    rfl

/-! ## Assigning -/

variable (m : Machine)

/-- To set a property of an object is to look it up from that object on. -/
theorem set_obj {realm : RealmRef} :
    m.set realm (.obj r) k v h = m.setRef realm r k v (.obj r) h := by
  unfold Machine.set
  rw [Eval.read_bind, prototypeOf]

/-- Assignment to an object that comes to putting the value into the object itself. -/
theorem assign_of_putData {realm : RealmRef}
    (hf : ∀ p, h.find r k = some p → ∃ u, p.content = .data u true) :
    m.assign realm true (.obj r) k v h = (do
      let done ← putData realm r k v
      if !done then typeError realm ("'" ++ keyText k ++ "' is read-only")) h := by
  have hset : m.set realm (.obj r) k v h = putData realm r k v h := by
    rw [set_obj, setRef, Eval.read_bind]
    cases hfind : h.find r k with
    | none => rfl
    | some p =>
      obtain ⟨u, hu⟩ := hf p hfind
      simp only [Option.map_some, hu]
  simp only [assign, Bool.and_true]
  change Eval.bind _ _ h = Eval.bind _ _ h
  rw [Eval.bind, Eval.bind, hset]

/-- Assignment to an object that comes to calling a setter. -/
theorem assign_of_setter {realm : RealmRef} {g : Option Ref} {u : Value} {h' : Heap} {p : Property}
    (hf : h.find r k = some p) (hp : p.content = .accessor g (some s))
    (hs : m.call realm (.obj s) (.obj r) [v] h = .done (.ok u, h')) :
    m.assign realm true (.obj r) k v h = .done (.ok (), h') := by
  have hset : m.set realm (.obj r) k v h = .done (.ok true, h') := by
    rw [set_obj, setRef, Eval.read_bind]
    simp only [hf, Option.map_some, hp]
    exact Eval.bind_of_done hs
  rw [assign, Eval.bind_of_done hset]
  rfl

/-- Putting two values into objects that are being made. -/
theorem putData_like (ho : Object.Like (Alike a b n) (a.heap.object r) (b.heap.object r'))
    (k : Key) (hv : Alike a b n v v')
    (hf : ∀ p, a.heap.find r k = some p → ∃ u, p.content = .data u true)
    (hf' : ∀ p, b.heap.find r' k = some p → ∃ u, p.content = .data u true) :
    ∃ x q q', Brief realm x ∧ Object.Like (Alike a b n) q q' ∧
      m.assign realm true (.obj r) k v a.heap = x (a.heap.withObject r q) ∧
      m.assign realm true (.obj r') k v' b.heap = x (b.heap.withObject r' q') := by
  rw [assign_of_putData m hf, assign_of_putData m hf']
  rcases ho.stored (Alike.exact a b n) k hv with
    ⟨q, q', done, hq, hq', hlike⟩ | ⟨text, htext, htext'⟩
  · have hput {r : Ref} {v : Value} {h : Heap} {q : Object}
        (hq : (h.object r).stored k v = .ok (q, done)) :
        putData realm r k v h = .done (.ok done, h.withObject r q) := by
      rw [putData_eq, hq]
    rw [Eval.bind_of_done (hput hq), Eval.bind_of_done (hput hq')]
    cases done with
    | true => exact ⟨pure (), q, q', .inl rfl, hlike, rfl, rfl⟩
    | false => exact ⟨_, q, q', .inr ⟨.type, _, rfl⟩, hlike, rfl, rfl⟩
  · refine ⟨raise realm .range text, _, _, .inr ⟨_, _, rfl⟩, ho, ?_, ?_⟩
    · rw [Heap.withObject_object]
      change Eval.bind _ _ a.heap = _
      rw [Eval.bind, putData_eq, htext]
      rfl
    · rw [Heap.withObject_object]
      change Eval.bind _ _ b.heap = _
      rw [Eval.bind, putData_eq, htext']
      rfl

/-- Assigning values that are alike to objects that are being made: whatever it comes to, it changes
these objects only, and leaves them alike. -/
theorem assign_like (realm : RealmRef) (ha : ground.Extends a.heap) (hb : ground.Extends b.heap)
    (hr : a.Owns r) (hr' : b.Owns r')
    (ho : Object.Like (Alike a b n) (a.heap.object r) (b.heap.object r')) (k : Key)
    (hv : Alike a b n v v') :
    ∃ x q q', Brief realm x ∧ Object.Like (Alike a b n) q q' ∧
      standardMachine.assign realm true (.obj r) k v a.heap = x (a.heap.withObject r q) ∧
      standardMachine.assign realm true (.obj r') k v' b.heap = x (b.heap.withObject r' q') := by
  have hfound := find_like ha hb k ho
  generalize hp : a.heap.find r k = p, hp' : b.heap.find r' k = p' at hfound
  cases hfound with
  | nothing => exact putData_like _ ho k hv (by simp [hp]) (by simp [hp'])
  | like hlike =>
    obtain ⟨u, u', hu, hu', -⟩ := hlike.content
    refine putData_like _ ho k hv (fun q hq => ⟨u, ?_⟩) fun q hq => ⟨u', ?_⟩
    · cases hp.symm.trans hq
      exact hu
    · cases hp'.symm.trans hq
      exact hu'
  | @top t p ht htop =>
    rcases content_of_foundAbove ht htop with ⟨u, hu⟩ | ⟨g, s, own, hcontent, hs, hkind⟩
    · refine putData_like _ ho k hv (fun q hq => ⟨u, ?_⟩) fun q hq => ⟨u, ?_⟩
      · cases hp.symm.trans hq
        exact hu
      · cases hp'.symm.trans hq
        exact hu
    · have hset := call_protoSetter realm ha hr ho.extensible.1
        ((ha.object s hs).symm ▸ hkind) hv.left
      have hset' := call_protoSetter realm hb hr' ho.extensible.2
        ((hb.object s hs).symm ▸ hkind) hv.right
      exact ⟨pure (), _, _, .inl rfl, ho.below hv, assign_of_setter _ hp hcontent hset,
        assign_of_setter _ hp' hcontent hset'⟩

end LoadHook.Script
