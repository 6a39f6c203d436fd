import LoadHook.Proofs.Script.Assigning
import LoadHook.Proofs.Script.Reviving
import LoadHook.Proofs.Script.Showing

/-!
# Objects that hold data only

Plain objects and arrays that hold nothing but each other are data, however they are entangled:
they may hold themselves, and may stand below one another. Whatever is assigned to them, and
whatever is added to the heap, they stay data as long as it is data that is assigned; reading them
runs no script. So nothing that is made of data leads to a function.
-/
namespace LoadHook.Script

open Machine BuiltIn

variable {V W : Value → Value → Prop} {D : Ref → Prop} {h h' : Heap} {r s t : Ref} {k : Key}
  {v : Value} {o q : Object} {n : Nat}

/-! ## Values among some objects -/

/-- Two values are the same, and if they are an object it is one of some objects. -/
def Among (D : Ref → Prop) (v v' : Value) : Prop := v' = v ∧ ∀ r, v = .obj r → D r

theorem among_exact (D : Ref → Prop) : Exact (Among D) where
  eq _ _ h _ := h.1
  refl v hv := ⟨rfl, fun r hr => by rw [hr] at hv; cases hv⟩
  objects v v' h := by rw [h.1]

/-- What an object that is like itself holds. -/
theorem Object.Like.self (h : o.Like V o) (hV : ∀ v, V v v → W v v) : o.Like W o where
  data := h.data
  kind := rfl
  extensible := h.extensible
  proto := by
    have hproto := h.proto
    generalize o.proto = p at hproto
    cases hproto with
    | nothing => exact .nothing
    | top ht => exact .top ht
    | like hs => exact .like (hV _ hs)
  props := by
    refine List.forall₂_same.mpr fun e he => ⟨rfl, rfl, rfl, ?_⟩
    obtain ⟨v, v', hv, hv', hlike⟩ := (List.forall₂_same.mp h.props e he).2.content
    cases hv.symm.trans hv'
    exact ⟨v, v, hv, hv, hV v hlike⟩
  measured := h.measured

/-! ## Data -/

namespace Heap

/-- Some objects hold nothing but each other. -/
structure Closed (h : Heap) (D : Ref → Prop) : Prop where
  above : ∀ r, D r → ground.objects.size ≤ r
  inside : ∀ r, D r → r < h.objects.size
  like : ∀ r, D r → (h.object r).Like (Among D) (h.object r)

/-- An object holds data only. -/
def Data (h : Heap) (r : Ref) : Prop := ∃ D, h.Closed D ∧ D r

/-- A value is no object, or one that holds data only. -/
def Datum (h : Heap) (v : Value) : Prop := ∀ r, v = .obj r → h.Data r

theorem datum_of_ref? (hv : v.ref? = none) : h.Datum v := fun r hr => by
  rw [hr] at hv
  cases hv

theorem Datum.among (hv : h.Datum v) : Among h.Data v v := ⟨rfl, hv⟩

namespace Data

theorem above (hr : h.Data r) : ground.objects.size ≤ r := by
  obtain ⟨D, hD, hr⟩ := hr
  exact hD.above r hr

theorem inside (hr : h.Data r) : r < h.objects.size := by
  obtain ⟨D, hD, hr⟩ := hr
  exact hD.inside r hr

/-- What data hold is data. -/
theorem like (hr : h.Data r) : (h.object r).Like (Among h.Data) (h.object r) := by
  obtain ⟨D, hD, hr⟩ := hr
  exact (hD.like r hr).self fun v hv => ⟨rfl, fun s hs => ⟨D, hD, hv.2 s hs⟩⟩

/-- Data stay data where they hold nothing else. -/
theorem congr (hr : h.Data r)
    (hD : ∀ s, h.Data s → s < h'.objects.size ∧ (h'.object s).Like (Among h.Data) (h'.object s)) :
    h'.Data r :=
  ⟨h.Data, ⟨fun _ hs => hs.above, fun s hs => (hD s hs).1, fun s hs => (hD s hs).2⟩, hr⟩

/-- Data stay data where other objects are changed. -/
theorem modifyObject (hr : h.Data r) (hs : ¬ h.Data s) (f : Object → Object) :
    (h.modifyObject s f).Data r :=
  hr.congr fun t ht => ⟨by simpa using ht.inside, by
    have hne : t ≠ s := fun e => hs (e ▸ ht)
    rw [object_modifyObject_of_ne f hne]
    exact ht.like⟩

/-- Data stay data where one of them is replaced. -/
theorem withObject (hr : h.Data r) (hs : h.Data s) (hq : q.Like (Among h.Data) q) :
    (h.withObject s q).Data r :=
  hr.congr fun t ht => ⟨by simpa [Heap.withObject] using ht.inside, by
    by_cases e : t = s
    · rw [e, Heap.withObject, object_modifyObject_self _ hs.inside]
      exact hq
    · rw [Heap.withObject, object_modifyObject_of_ne _ e]
      exact ht.like⟩

end Data

theorem Data.extends (hr : h.Data r) (e : h.Extends h') : h'.Data r :=
  hr.congr fun s hs => ⟨Nat.lt_of_lt_of_le hs.inside e.size, by
    rw [e.object s hs.inside]
    exact hs.like⟩

theorem Datum.extends (hv : h.Datum v) (e : h.Extends h') : h'.Datum v :=
  fun r hr => (hv r hr).extends e

/-- A new object that holds data is data. -/
theorem data_addObject (hg : ground.Extends h) (ho : o.Like (Among h.Data) o) :
    (h.addObject o).2.Data h.objects.size := by
  refine ⟨fun r => h.Data r ∨ r = h.objects.size, ⟨?_, ?_, ?_⟩, .inr rfl⟩
  · rintro r (hr | rfl)
    · exact hr.above
    · exact hg.size
  · rintro r (hr | rfl)
    · simpa using Nat.lt_succ_of_lt hr.inside
    · simp
  · have hmono : ∀ v, Among h.Data v v →
        Among (fun r => h.Data r ∨ r = h.objects.size) v v :=
      fun v hv => ⟨rfl, fun s hs => .inl (hv.2 s hs)⟩
    rintro r (hr | rfl)
    · rw [object_addObject_of_lt hr.inside]
      exact hr.like.self hmono
    · rw [object_addObject_self]
      exact ho.self hmono

/-- What is alike to itself is data. -/
theorem datum_of_alike (hv : Alike ⟨h, []⟩ ⟨h, []⟩ n v v) : h.Datum v := by
  rintro r rfl
  refine ⟨fun s => ∃ n, Alike ⟨h, []⟩ ⟨h, []⟩ n (.obj s) (.obj s), ⟨?_, ?_, ?_⟩, n, hv⟩
  · rintro s ⟨n, hs⟩
    obtain ⟨-, -, -, -, hsees, -⟩ := hs.of_obj
    exact hsees.above
  · rintro s ⟨n, hs⟩
    obtain ⟨-, -, -, -, hsees, -⟩ := hs.of_obj
    exact hsees.inside
  · rintro s ⟨n, hs⟩
    obtain ⟨i, s', -, hs', -, -, hlike⟩ := hs.of_obj
    cases hs'
    exact hlike.self fun v hv => ⟨rfl, fun s hs => ⟨i, hs ▸ hv⟩⟩

end Heap

/-- Reading a text adds data to the heap, or throws an error. -/
theorem parseJson_datum (hg : ground.Extends h) (us : Text.Utf16) :
    (∃ v g, parseJson Host.homeRealm us h = .done (.ok v, g) ∧ h.Extends g ∧ g.Datum v) ∨
      parseJson Host.homeRealm us h = raise Host.homeRealm .syntactic "unexpected token" h := by
  have hbounded : View.Bounded ⟨h, []⟩ := by simp [View.Bounded]
  rcases parseJson_like (a := ⟨h, []⟩) (b := ⟨h, []⟩) hg hg hbounded hbounded us with
    ⟨x, x', hx, hx', hmade⟩ | hraise
  · left
    obtain ⟨v, g⟩ := x
    obtain ⟨v', g'⟩ := x'
    cases hx.symm.trans hx'
    obtain ⟨n, hn⟩ := hmade.like hg hg hbounded hbounded
    exact ⟨v, g, hx, hmade.extends_left, Heap.datum_of_alike hn⟩
  · exact .inr (hraise h)

/-! ## Looking things up -/

/-- However few objects are looked at, nothing else is found at the top than what is found there. -/
theorem findFrom_top_le (hg : ground.Extends h) (ht : IsTop t) (fuel : Nat) (k : Key) :
    h.findFrom fuel t k = none ∨ h.findFrom fuel t k = foundAbove t k := by
  cases fuel with
  | zero => exact .inl rfl
  | succ fuel =>
    cases fuel with
    | succ fuel => exact .inr (findFrom_top hg ht fuel k)
    | zero =>
      simp only [foundAbove, Heap.findFrom, hg.object_top ht]
      cases (ground.object t).own k with
      | some p => exact .inr rfl
      | none =>
        left
        cases (ground.object t).proto <;> rfl

/-- What is found in data is data, or stands at the top. -/
theorem found_findFrom (hg : ground.Extends h) (hr : h.Data r) (fuel : Nat) (k : Key) :
    Found (Among h.Data) k (h.findFrom fuel r k) (h.findFrom fuel r k) := by
  induction fuel generalizing r with
  | zero => exact .nothing
  | succ fuel ih =>
    have hlike := hr.like
    simp only [Heap.findFrom, Object.own_of_isData hlike.data]
    rcases findKey_like hlike.props k with ⟨hnone, -⟩ | ⟨p, p', hp, hp', hprop⟩
    · rw [hnone]
      have hproto := hlike.proto
      generalize (h.object r).proto = up at hproto
      cases hproto with
      | nothing => exact .nothing
      | top ht =>
        dsimp only
        rcases findFrom_top_le hg ht fuel k with hnone | htop
        · rw [hnone]
          exact .nothing
        · rw [htop]
          exact found_top ht k
      | like hs => exact ih (hs.2 _ rfl)
    · cases hp.symm.trans hp'
      rw [hp]
      exact .like hprop

/-- A property of data is read without running a script, if it is their own or means nothing at the
top. -/
theorem getRef_datum (m : Machine) (realm : RealmRef) (hg : ground.Extends h) (hr : h.Data r)
    (hk : (∃ p, (h.object r).own k = some p) ∨ ∀ t, IsTop t → foundAbove t k = none) :
    ∃ u, m.getRef realm r k h = .done (.ok u, h) ∧ h.Datum u := by
  have hread {p : Property} (hp : h.find r k = some p) (hlike : p.Like (Among h.Data) p) :
      ∃ u, m.getRef realm r k h = .done (.ok u, h) ∧ h.Datum u := by
    obtain ⟨content, e, c⟩ := p
    obtain ⟨u, u', rfl, -, hu⟩ := hlike.content
    exact ⟨u, getRef_of_finds m realm ⟨true, e, c, hp⟩, hu.2⟩
  rcases hk with ⟨p, hp⟩ | hk
  · rcases hr.like.own k with ⟨hnone, -⟩ | ⟨q, q', hq, hq', hlike⟩
    · cases hp.symm.trans hnone
    · cases hq.symm.trans hq'
      exact hread (Heap.find_of_own hq) hlike
  · have hfound := found_findFrom hg hr (h.objects.size + 1) k
    change Found _ k (h.find r k) (h.find r k) at hfound
    generalize hp : h.find r k = p at hfound
    cases hfound with
    | nothing => exact ⟨.undefined, getRef_of_find_eq_none m realm hp, Heap.datum_of_ref? rfl⟩
    | like hlike => exact hread hp hlike
    | top ht htop => cases htop.symm.trans (hk _ ht)

/-! ## Assigning -/

/-- An object is put below another one, or it is left as it is. -/
theorem changeProto_cases (h : Heap) (r : Ref) (up : Option Ref) :
    changeProto h r up = (true, h.withObject r ((h.object r).under up)) ∨
      changeProto h r up = (false, h) := by
  by_cases hsame : ((h.object r).proto == up) = true
  · left
    have hkept : (h.object r).under up = h.object r := by
      rw [Object.under, ← beq_iff_eq.mp hsame]
    rw [hkept, Heap.withObject_object]
    simp only [changeProto, hsame, if_true]
  · have hput : h.modifyObject r (fun o => { o with proto := up }) =
        h.withObject r ((h.object r).under up) := Heap.modifyObject_eq h r _
    simp only [changeProto, hsame, Bool.false_eq_true, if_false, hput]
    split <;> split <;> first | exact .inl rfl | exact .inr rfl

/-- Data below other data are data. -/
theorem Object.Like.below_among (ho : o.Like (Among D) o) (hv : Among D v v) :
    (o.below v).Like (Among D) (o.below v) := by
  cases v with
  | obj p => exact ⟨ho.data, rfl, ho.extensible, .like hv, ho.props, ho.measured⟩
  | null => exact ⟨ho.data, rfl, ho.extensible, .nothing, ho.props, ho.measured⟩
  | undefined | bool | num | str => exact ho

/-- What is called puts data below other data, or throws. -/
theorem call_protoSetter_datum (realm own : RealmRef) (hr : h.Data r) (hv : h.Datum v)
    (hs : (h.object s).kind = .native protoSetter own) :
    (∃ q, q.Like (Among h.Data) q ∧ standardMachine.call realm (.obj s) (.obj r) [v] h =
      .done (.ok .undefined, h.withObject r q)) ∨
    standardMachine.call realm (.obj s) (.obj r) [v] h =
      raise own .type "object is not extensible" h := by
  rw [call_protoSetter_eq realm hs]
  have hput (up : Option Ref) (hup : (Object.under (h.object r) up).Like (Among h.Data)
        ((h.object r).under up)) :
      (∃ q, q.Like (Among h.Data) q ∧ (do
        if !(← Eval.update (changeProto · r up)) then
          typeError own "object is not extensible"
        return .undefined : Eval Value) h = .done (.ok .undefined, h.withObject r q)) ∨
      (do
        if !(← Eval.update (changeProto · r up)) then
          typeError own "object is not extensible"
        return .undefined : Eval Value) h = raise own .type "object is not extensible" h := by
    rcases changeProto_cases h r up with hdone | hleft
    · exact .inl ⟨_, hup, (Eval.bind_of_done (by rw [Eval.update_apply, hdone])).trans rfl⟩
    · exact .inr ((Eval.bind_of_done (by rw [Eval.update_apply, hleft])).trans rfl)
  have hbelow := hr.like.below_among hv.among
  cases v with
  | obj p => exact hput (some p) hbelow
  | null => exact hput none hbelow
  | undefined | bool | num | str =>
    exact .inl ⟨_, hr.like, by rw [Heap.withObject_object]; rfl⟩

/-- An assignment that calls a setter which throws, throws too. -/
theorem assign_of_setter_stopped (m : Machine) {realm : RealmRef} {g : Option Ref} {e : Abrupt}
    {p : Property} (hf : h.find r k = some p) (hp : p.content = .accessor g (some s))
    (hs : m.call realm (.obj s) (.obj r) [v] h = .done (.error e, h')) :
    m.assign realm true (.obj r) k v h = .done (.error e, h') := by
  have hset : m.set realm (.obj r) k v h = .done (.error e, h') := by
    rw [set_obj, setRef, Eval.read_bind]
    simp only [hf, Option.map_some, hp]
    exact Eval.bind_of_stopped hs
  rw [assign]
  exact Eval.bind_of_stopped hset

/-- Assigning data to data changes no other object, and leaves data. -/
theorem assign_datum (realm : RealmRef) (hg : ground.Extends h) (hr : h.Data r) (k : Key)
    (hv : h.Datum v) : ∃ q own x, q.Like (Among h.Data) q ∧ Brief own x ∧
      standardMachine.assign realm true (.obj r) k v h = x (h.withObject r q) := by
  have hput (hf : ∀ p, h.find r k = some p → ∃ u, p.content = .data u true) :
      ∃ q own x, q.Like (Among h.Data) q ∧ Brief own x ∧
        standardMachine.assign realm true (.obj r) k v h = x (h.withObject r q) := by
    rw [assign_of_putData _ hf]
    rcases hr.like.stored (among_exact h.Data) k hv.among with
      ⟨q, q', done, hq, hq', hlike⟩ | ⟨text, htext, -⟩
    · cases hq.symm.trans hq'
      have hdone : putData realm r k v h = .done (.ok done, h.withObject r q) := by
        rw [putData_eq, hq]
      rw [Eval.bind_of_done hdone]
      cases done with
      | true => exact ⟨q, realm, pure (), hlike, .inl rfl, rfl⟩
      | false => exact ⟨q, realm, _, hlike, .inr ⟨.type, _, rfl⟩, rfl⟩
    · refine ⟨h.object r, realm, raise realm .range text, hr.like, .inr ⟨_, _, rfl⟩, ?_⟩
      have hstopped : putData realm r k v h = raise realm .range text h := by
        rw [putData_eq, htext]
      rw [Heap.withObject_object]
      exact Eval.bind_of_stopped hstopped
  have hfound := found_findFrom hg hr (h.objects.size + 1) k
  change Found _ k (h.find r k) (h.find r k) at hfound
  generalize hp : h.find r k = p at hfound hput
  cases hfound with
  | nothing => exact hput nofun
  | like hlike =>
    obtain ⟨u, -, hu, -⟩ := hlike.content
    refine hput fun q hq => ⟨u, ?_⟩
    cases hq
    exact hu
  | @top t p ht htop =>
    rcases content_of_foundAbove ht htop with ⟨u, hu⟩ | ⟨g, s, own, hcontent, hs, hkind⟩
    · refine hput fun q hq => ⟨u, ?_⟩
      cases hq
      exact hu
    · rcases call_protoSetter_datum realm own hr hv ((hg.object s hs).symm ▸ hkind) with
        ⟨q, hq, hset⟩ | hset
      · exact ⟨q, realm, pure (), hq, .inl rfl, assign_of_setter _ hp hcontent hset⟩
      · refine ⟨h.object r, own, raise own .type "object is not extensible", hr.like,
          .inr ⟨_, _, rfl⟩, ?_⟩
        rw [Heap.withObject_object]
        exact assign_of_setter_stopped _ hp hcontent hset

end LoadHook.Script
