import LoadHook.Proofs.Fence.Basic
import LoadHook.Script.Function

/-!
# Changing a heap outside of its fence

What is found outside of a fence lies outside, and what is put there from outside leaves the heap
sealed. This is so for each operation on properties, scopes and functions that runs no script.
-/
namespace LoadHook.Script.Fence

variable {F : Fence} {n : Nat} {h : Heap} {r : Ref} {k : Key} {p : Property} {o : Object}
  {props : List (Key × Property)} {v : Value}

/-! ## Properties of objects -/

namespace CleanProps

theorem putKey (hprops : F.CleanProps props) (hp : F.Clean p.content) :
    F.CleanProps (putKey k p props) := by
  induction props with
  | nil => exact cleanProps_cons.mpr ⟨hp, cleanProps_nil⟩
  | cons e rest ih =>
    obtain ⟨he, hrest⟩ := cleanProps_cons.mp hprops
    rw [Script.putKey]
    split
    · exact cleanProps_cons.mpr ⟨hp, hrest⟩
    · exact cleanProps_cons.mpr ⟨he, ih hrest⟩

theorem filter (hprops : F.CleanProps props) (keep : Key × Property → Bool) :
    F.CleanProps (props.filter keep) := fun e he => hprops e (List.mem_filter.mp he).1

/-- Properties may be changed as long as what they hold stays free. -/
theorem map (hprops : F.CleanProps props) {f : Key × Property → Key × Property}
    (hf : ∀ e, F.Clean e.2.content → F.Clean (f e).2.content) : F.CleanProps (props.map f) := by
  intro e he
  obtain ⟨e', he', rfl⟩ := List.mem_map.mp he
  exact hf e' (hprops e' he')

theorem findKey (hprops : F.CleanProps props) (k : Key) : F.Clean? (findKey k props) :=
  fun p hp => hprops (k, p) (mem_of_findKey hp)

end CleanProps

/-- A unit of a text is no object. -/
theorem clean?_unitProperty (s : Text.Utf16) (k : Key) : F.Clean? (Object.unitProperty s k) := by
  intro p hp
  unfold Object.unitProperty at hp
  split at hp
  · cases hp
    trivial
  · obtain ⟨i, -, hi⟩ := Option.bind_eq_some_iff.mp hp
    obtain ⟨u, -, rfl⟩ := Option.map_eq_some_iff.mp hi
    trivial

/-- What is asked of a property leads to nothing behind the fence. -/
structure CleanDescriptor (F : Fence) (d : Descriptor) : Prop where
  value : F.FreeValue? d.value
  get : ∀ g, d.get = some g → F.FreeRef? g
  set : ∀ s, d.set = some s → F.FreeRef? s

theorem cleanDescriptor_empty : F.CleanDescriptor {} := ⟨nofun, nofun, nofun⟩

theorem cleanDescriptor_value (hv : F.FreeValue v) : F.CleanDescriptor { value := some v } :=
  ⟨freeValue?_some.mpr hv, nofun, nofun⟩

theorem cleanDescriptor_plain (hv : F.FreeValue v) :
    F.CleanDescriptor (.ofProperty (.plain v)) := ⟨freeValue?_some.mpr hv, nofun, nofun⟩

theorem CleanDescriptor.getters {d : Descriptor} (hd : F.CleanDescriptor d) :
    F.FreeRef? (d.get.getD none) ∧ F.FreeRef? (d.set.getD none) := by
  constructor
  · cases hg : d.get with
    | none => exact freeRef?_none
    | some g => exact hd.get g hg
  · cases hs : d.set with
    | none => exact freeRef?_none
    | some s => exact hd.set s hs

theorem CleanDescriptor.fresh {d : Descriptor} (hd : F.CleanDescriptor d) :
    F.Clean d.fresh.content := by
  unfold Descriptor.fresh
  dsimp only
  split
  · exact hd.getters
  · exact hd.value.getD

/-- A property that is changed as asked leads to nothing behind the fence. -/
theorem CleanDescriptor.apply {d : Descriptor} (hd : F.CleanDescriptor d)
    (hp : F.Clean p.content) : F.Clean? (d.apply p) := by
  intro q hq
  unfold Descriptor.apply at hq
  extract_lets enumerable configurable at hq
  split at hq
  · cases hq
  · cases hc : p.content with
    | data v w =>
      simp only [hc] at hq hp
      split at hq
      · split at hq
        · cases hq
          exact hd.getters
        · cases hq
      · split at hq
        · cases hq
        · cases hq
          cases hv : d.value with
          | none => exact hp
          | some u => exact hd.value u hv
    | accessor g s =>
      simp only [hc] at hq hp
      split at hq
      · split at hq
        · cases hq
          exact hd.value.getD
        · cases hq
      · split at hq
        · cases hq
        · cases hq
          constructor
          · cases hg : d.get with
            | none => exact hp.1
            | some g => exact hd.get g hg
          · cases hs : d.set with
            | none => exact hp.2
            | some s => exact hd.set s hs

namespace CleanObject

theorem own (ho : F.CleanObject n o) (k : Key) : F.Clean? (o.own k) := by
  unfold Object.own
  split
  · next s _ =>
    cases hu : Object.unitProperty s k with
    | none => exact ho.props.findKey k
    | some u => exact fun p hp => clean?_unitProperty s k p (hu.trans hp)
  · exact ho.props.findKey k

theorem put (ho : F.CleanObject n o) (k : Key) (hp : F.Clean p.content) :
    F.CleanObject n (o.put k p) := ⟨ho.kind, ho.proto, ho.props.putKey hp⟩

theorem erase (ho : F.CleanObject n o) (k : Key) : F.CleanObject n (o.erase k) :=
  ⟨ho.kind, ho.proto, ho.props.filter _⟩

variable {d : Descriptor} {o' : Object}

theorem defineNamed (ho : F.CleanObject n o) (hd : F.CleanDescriptor d)
    (h : o.defineNamed k d = some o') : F.CleanObject n o' := by
  unfold Object.defineNamed at h
  split at h
  · split at h
    · cases h
      exact ho.put k hd.fresh
    · cases h
  · next p hp =>
    obtain ⟨q, hq, rfl⟩ := Option.map_eq_some_iff.mp h
    exact ho.put k (hd.apply (ho.own k p hp) q hq)

theorem setLength {length : Nat} {whole : Bool} (ho : F.CleanObject n o)
    (hd : F.CleanDescriptor d) (h : o.setLength length d = some (o', whole)) :
    F.CleanObject n o' := by
  have hlength (i : Nat) : F.CleanDescriptor { d with value := some (.nat i) } :=
    ⟨freeValue?_some.mpr trivial, hd.get, hd.set⟩
  unfold Object.setLength at h
  dsimp only at h
  split at h
  · obtain ⟨q, hq, he⟩ := Option.map_eq_some_iff.mp h
    cases he
    exact ho.defineNamed (hlength _) hq
  · split at h
    · cases h
    · obtain ⟨q, hq, he⟩ := Option.map_eq_some_iff.mp h
      cases he
      refine defineNamed ?_ (hlength _) hq
      exact ⟨ho.kind, ho.proto, ho.props.filter _⟩

theorem define (ho : F.CleanObject n o) (hd : F.CleanDescriptor d)
    (h : o.define k d = some o') : F.CleanObject n o' := by
  unfold Object.define at h
  split at h
  · split at h
    · dsimp only at h
      split at h
      · cases h
      · obtain ⟨q, hq, rfl⟩ := Option.map_eq_some_iff.mp h
        have hclean := ho.defineNamed hd hq
        split
        · exact hclean.put _ trivial
        · exact hclean
    · exact ho.defineNamed hd h
  · exact ho.defineNamed hd h

end CleanObject

/-- A realm has an object to stand above each kind of errors, if any. -/
theorem FreeRealm.errorProto {r : Realm} (hr : F.FreeRealm r) (kind : ErrorKind) :
    F.FreeRef? (r.errorProtos.lookup kind) := by
  intro proto hproto
  obtain ⟨l, l', hl, -⟩ := List.lookup_eq_some_iff.mp hproto
  exact hr.errorProtos (kind, proto) (hl ▸ List.mem_append_right _ List.mem_cons_self)

/-! ## Objects of the heap -/

namespace Sealed

theorem own (hs : F.Sealed n h) (hr : F.Free r) (k : Key) : F.Clean? (h.own r k) :=
  (hs.object r hr).own k

/-- What is found from outside of the fence is found outside of it. -/
theorem findFrom (hs : F.Sealed n h) (hr : F.Free r) (fuel : Nat) (k : Key) :
    F.Clean? (h.findFrom fuel r k) := by
  induction fuel generalizing r with
  | zero => exact clean?_none
  | succ fuel ih =>
    have hclean := hs.object r hr
    rw [Heap.findFrom]
    split
    · next p hp => exact hp ▸ hclean.own k
    · split
      · next up hup => exact ih (hclean.proto up hup)
      · exact clean?_none

theorem find (hs : F.Sealed n h) (hr : F.Free r) (k : Key) : F.Clean? (h.find r k) :=
  hs.findFrom hr _ k

theorem putOwn (hs : F.Sealed n h) (hr : F.Free r) (k : Key) (hp : F.Clean p.content) :
    F.Sealed n (h.putOwn r k p) := hs.modifyObject hr ((hs.object r hr).put k hp)

theorem putData {w e c : Bool} (hs : F.Sealed n h) (hr : F.Free r) (k : Key)
    (hv : F.FreeValue v) : F.Sealed n (h.putOwn r k ⟨.data v w, e, c⟩) := hs.putOwn hr k hv

theorem withProto {proto : Option Ref} (hs : F.Sealed n h) (hr : F.Free r) (hp : F.FreeRef? proto) :
    F.Sealed n (h.modifyObject r fun o => { o with proto := proto }) :=
  hs.modifyObject hr ⟨(hs.object r hr).kind, hp, (hs.object r hr).props⟩

theorem define {d : Descriptor} (hs : F.Sealed n h) (hr : F.Free r) (k : Key)
    (hd : F.CleanDescriptor d) : F.Sealed n (h.define r k d).2 := by
  unfold Heap.define
  split
  · next o ho => exact hs.modifyObject hr ((hs.object r hr).define hd ho)
  · exact hs

theorem delete (hs : F.Sealed n h) (hr : F.Free r) (k : Key) : F.Sealed n (h.delete r k).2 := by
  unfold Heap.delete
  split
  · exact hs
  · split
    · exact hs.modifyObject hr ((hs.object r hr).erase k)
    · exact hs

theorem addPlain {proto : Option Ref} (hs : F.Sealed n h) (hp : F.FreeRef? proto) :
    F.Sealed n (h.addPlain proto).2 := hs.addObject ⟨trivial, hp, cleanProps_nil⟩

theorem addArray {proto : Ref} {items : List (Option Value)} (hs : F.Sealed n h)
    (hp : F.Free proto) (hitems : F.FreeItems items) :
    F.Sealed n (h.addArray proto items).2 := by
  refine hs.addObject ⟨trivial, freeRef?_some.mpr hp, cleanProps_cons.mpr ⟨trivial, fun e he => ?_⟩⟩
  obtain ⟨⟨v, i⟩, hv, hmap⟩ := List.mem_filterMap.mp he
  obtain ⟨v, rfl, rfl⟩ := Option.map_eq_some_iff.mp hmap
  exact hitems (some v) (List.fst_mem_of_mem_zipIdx hv) v rfl

theorem addError {realm : RealmRef} {kind : ErrorKind} (hs : F.Sealed n h)
    (hprops : F.CleanProps props) : F.Sealed n (h.addError realm kind props).2 :=
  hs.addObject ⟨trivial, (hs.realm realm).errorProto kind, hprops⟩

/-! ## Scopes -/

variable {s : ScopeRef} {b : Binding}

theorem bind (hs : F.Sealed n h) (hfree : F.FreeScope s) (k : Key) (hb : F.CleanBinding b) :
    F.Sealed n (h.bind s k b) := by
  have hscope := hs.scope s hfree
  refine hs.modifyScope { hscope with bindings := fun e he => ?_ }
  rcases List.mem_cons.mp he with rfl | he
  · exact hb
  · exact hscope.bindings e (List.mem_filter.mp he).1

theorem setSlot (hs : F.Sealed n h) (hfree : F.FreeScope s) (k : Key) (hv : F.FreeValue v) :
    F.Sealed n (h.setSlot s k v) := hs.bind hfree k (freeValue?_some.mpr hv)

theorem announce (hs : F.Sealed n h) (hfree : F.FreeScope s) (names : List (Key × Bool)) :
    F.Sealed n (h.announce s names) := by
  unfold Heap.announce
  induction names generalizing h with
  | nil => exact hs
  | cons name rest ih => exact ih (hs.bind hfree name.1 freeValue?_none)

theorem addInner (hs : F.Sealed n h) (hfree : F.FreeScope s) : F.Sealed n (h.addInner s).2 :=
  hs.addScope { cleanScope_default with parent := fun _ e => Option.some.inj e ▸ hfree }

theorem withReceiver {receiver : Receiver} (hs : F.Sealed n h) (hfree : F.FreeScope s)
    (hreceiver : F.FreeReceiver receiver) :
    F.Sealed n (h.modifyScope s fun scope => { scope with receiver := receiver }) :=
  hs.modifyScope { hs.scope s hfree with receiver := hreceiver }

/-- The scope that says what `this` is lies outside of the fence. -/
theorem receiverScope (hs : F.Sealed n h) (hfree : F.FreeScope s) :
    F.FreeScope (h.receiverScope s) := by
  unfold Heap.receiverScope
  generalize h.scopes.size + 1 = fuel
  induction fuel generalizing s with
  | zero => exact hfree
  | succ fuel ih =>
    rw [Heap.receiverFrom]
    split
    · next up _ hup => exact ih ((hs.scope s hfree).parent up hup)
    · exact hfree

end Sealed

/-- A name leads to nothing behind the fence. -/
def FreePlace (F : Fence) : Place → Prop
  | .slot s b => F.FreeScope s ∧ F.CleanBinding b
  | .property r => F.Free r
  | .nowhere => True

namespace Sealed

variable {s : ScopeRef}

theorem place (hs : F.Sealed n h) (hfree : F.FreeScope s) (k : Key) :
    F.FreePlace (h.place s k) := by
  unfold Heap.place
  generalize h.scopes.size + 1 = fuel
  induction fuel generalizing s with
  | zero => trivial
  | succ fuel ih =>
    have hscope := hs.scope s hfree
    rw [Heap.placeFrom]
    split
    · next b hb =>
      obtain ⟨l, l', hl, -⟩ := List.lookup_eq_some_iff.mp hb
      exact ⟨hfree, hscope.bindings (k, b) (hl ▸ List.mem_append_right _ List.mem_cons_self)⟩
    · split
      · next r hr => exact hscope.object r (Option.filter_eq_some_iff.mp hr).1
      · split
        · next up hup => exact ih (hscope.parent up hup)
        · trivial

/-! ## Functions -/

theorem addClosure {c : Closure} (hs : F.Sealed n h) (hc : F.CleanClosure c) :
    F.Free (h.addClosure c).1 ∧ F.Sealed n (h.addClosure c).2 := by
  have hrealm := hs.realm c.realm
  have hf := hs.addObject (o := ⟨.closure c, some (h.realm c.realm).functionProto, true,
    [(lengthKey, ⟨.data (.nat c.func.arity) false, false, true⟩),
     (key "name", ⟨.data (.str c.func.name) false, false, true⟩)]⟩)
    ⟨hc, freeRef?_some.mpr hrealm.functionProto, by simp⟩
  unfold Heap.addClosure
  dsimp only
  split
  · have hproto := hf.addObject (o := ⟨.plain, some (h.realm c.realm).objectProto, true,
      [(key "constructor", .hidden (.obj h.objects.size))]⟩)
      ⟨trivial, freeRef?_some.mpr hrealm.objectProto, by simpa using hs.free_new⟩
    exact ⟨hs.free_new, hproto.putData hs.free_new _ hf.free_new⟩
  · exact ⟨hs.free_new, hf⟩

theorem closure? {c : Closure} (hs : F.Sealed n h) (hr : F.Free r) (hc : h.closure? r = some c) :
    F.CleanClosure c := by
  have hkind := (hs.object r hr).kind
  unfold Heap.closure? at hc
  split at hc
  · next hk =>
    cases hc
    rwa [hk] at hkind
  · cases hc

/-- What a class says of new objects, if a function is one. -/
theorem fields {f : Option Ref} (hs : F.Sealed n h) (hf : F.FreeRef? f) :
    ∀ e ∈ ((f.bind h.closure?).map Closure.fields).getD [], F.Free e.2 := by
  cases hc : f.bind h.closure? with
  | none => exact nofun
  | some c =>
    obtain ⟨r, hr, hc⟩ := Option.bind_eq_some_iff.mp hc
    exact (hs.closure? (hf r hr) hc).fields

end Sealed
end LoadHook.Script.Fence
