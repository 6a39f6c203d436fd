import LoadHook.Proofs.Fence.Reference
import LoadHook.Script.BuiltIn.Object

/-!
# Functions on objects, outside of a fence

What is done to an object outside of a fence is done with what lies outside, so the functions on
objects hold every fence.
-/
namespace LoadHook.Script.Fence

/-- A built-in function holds the fence, whoever calls it from outside. -/
def HoldsBuiltIn (F : Fence) (b : BuiltIn) : Prop :=
  ∀ n m realm this args, F.Trusts m → F.FreeValue this → F.FreeValues args →
    F.Holds n F.FreeValue (b.run m realm this args)

variable {F : Fence} {n : Nat} {m : Machine} (hm : F.Trusts m) {realm : RealmRef} {r : Ref}
  {v : Value} {args : List Value}

/-- What is given as an argument, or stands for one that is not given, is free. -/
theorem FreeValues.argument (hargs : F.FreeValues args) (i : Nat) :
    F.FreeValue (BuiltIn.argument args i) := hargs.getD i

theorem holds_keyArray (keys : List Key) :
    F.Holds n F.FreeValue (BuiltIn.keyArray realm keys) := by
  refine holds_newArray realm fun v hv => ?_
  obtain ⟨k, -, rfl⟩ := List.mem_map.mp hv
  trivial

include hm in
theorem holds_indexArgument (hargs : F.FreeValues args) (i length default : Nat) :
    F.Holds n (fun _ => True) (BuiltIn.indexArgument m realm args i length default) := by
  have harg := hargs.argument i
  unfold BuiltIn.indexArgument
  split
  · exact .pure trivial
  · exact (holds_toInteger hm realm harg).map fun _ _ => trivial

/-! ## Descriptors of properties -/

include hm in
theorem holds_part (hr : F.Free r) (name : String) :
    F.Holds n F.FreeValue? (BuiltIn.part m realm r name) :=
  .read_bind fun _ _ =>
    .ite ((holds_getRef hm realm hr _).map fun _ hv => freeValue?_some.mpr hv)
      (.pure freeValue?_none)

theorem holds_accessorPart (hv : F.FreeValue v) :
    F.Holds n F.FreeRef? (BuiltIn.accessorPart realm v) := by
  cases v with
  | undefined => exact .pure freeRef?_none
  | obj r =>
    exact .read_bind fun _ _ => .ite (.pure (freeRef?_some.mpr hv)) (holds_typeError realm _)
  | _ => exact holds_typeError realm _

include hm in
theorem holds_toDescriptor (hv : F.FreeValue v) :
    F.Holds n F.CleanDescriptor (BuiltIn.toDescriptor m realm v) := by
  cases v with
  | obj r =>
    have part (name : String) : F.Holds n F.FreeValue? (BuiltIn.part m realm r name) :=
      holds_part hm hv name
    refine (part _).bind fun _ _ => (part _).bind fun _ _ => (part _).bind fun value hvalue => ?_
    refine (part _).bind fun _ _ => (part _).bind fun get hget => ?_
    extract_lets withGetter
    have hgetter {get : Option (Option Ref)} (hget : ∀ g, get = some g → F.FreeRef? g) :
        F.Holds n F.CleanDescriptor (withGetter get) := by
      refine (part _).bind fun set hset => ?_
      extract_lets withSetter
      have hsetter {set : Option (Option Ref)} (hset : ∀ s, set = some s → F.FreeRef? s) :
          F.Holds n F.CleanDescriptor (withSetter set) :=
        .guard (holds_typeError realm _) (.pure ⟨hvalue, hget, hset⟩)
      cases set with
      | none => exact .pure_bind (hsetter nofun)
      | some v =>
        refine (holds_accessorPart (freeValue?_some.mp hset)).bind fun s hs => ?_
        exact .pure_bind (hsetter fun _ h => Option.some.inj h ▸ hs)
    cases get with
    | none => exact .pure_bind (hgetter nofun)
    | some v =>
      refine (holds_accessorPart (freeValue?_some.mp hget)).bind fun g hg => ?_
      exact .pure_bind (hgetter fun _ h => Option.some.inj h ▸ hg)
  | _ => exact holds_typeError realm _

theorem holds_describe {p : Property} (hp : F.Clean p.content) :
    F.Holds n F.FreeValue (BuiltIn.describe realm p) := by
  have accessor {o : Option Ref} (ho : F.FreeRef? o) : F.FreeValue (BuiltIn.accessorValue o) := by
    cases o with
    | none => trivial
    | some r => exact ho r rfl
  obtain ⟨content, e, c⟩ := p
  refine holds_newObject realm ?_
  cases content with
  | data v w => simpa using hp
  | accessor g s => simpa using ⟨accessor hp.1, accessor hp.2⟩

include hm in
theorem holds_defineAs (hr : F.Free r) (k : Key) (hv : F.FreeValue v) :
    F.Holds n (fun _ => True) (BuiltIn.defineAs m realm r k v) :=
  (holds_toDescriptor hm hv).bind fun _ hd => (holds_define hr k hd).bind fun _ _ =>
    .ite (holds_typeError realm _) (.pure trivial)

theorem holds_needObject (hv : F.FreeValue v) :
    F.Holds n F.Free (BuiltIn.needObject realm v) := by
  cases v with
  | obj r => exact .pure hv
  | _ => exact holds_typeError realm _

include hm in
theorem holds_defineAll (hr : F.Free r) (hv : F.FreeValue v) :
    F.Holds n (fun _ => True) (BuiltIn.defineAll m realm r v) :=
  (holds_ownEnumerable hm hv _).bind fun _ hps => .each fun e he =>
    holds_defineAs hm hr e.1 (hps e he)

/-- An object may be put above another one. -/
theorem holds_changeProto (hr : F.Free r) {proto : Option Ref} (hp : F.FreeRef? proto) :
    F.Holds n (fun _ => True) (Eval.update (BuiltIn.changeProto · r proto)) := by
  refine .update fun h hs => ⟨trivial, ?_⟩
  unfold BuiltIn.changeProto
  extract_lets o cyclic
  split
  · exact hs
  · split
    · exact hs
    · exact hs.withProto hr hp

/-! ## The constructor's functions -/

theorem holds_fix (freeze : Bool) (hv : F.FreeValue v) :
    F.Holds n F.FreeValue (BuiltIn.fix freeze v) := by
  cases v with
  | obj r =>
    refine .bind (.change fun h hs => hs.modifyObject hv ?_) fun _ _ => .pure hv
    have hclean := hs.object r hv
    refine ⟨hclean.kind, hclean.proto, hclean.props.map fun e he => ?_⟩
    obtain ⟨k, ⟨content, e, c⟩⟩ := e
    cases content <;> exact he
  | _ => exact .pure hv

theorem holds_fixedObject (frozen : Bool) (v : Value) :
    F.Holds n F.FreeValue (BuiltIn.fixedObject frozen v) := by
  cases v with
  | obj r => exact .read_bind fun _ _ => .pure trivial
  | _ => exact .pure trivial

include hm in
theorem holds_assignAll (hv : F.FreeValue v) {sources : List Value}
    (hsources : F.FreeValues sources) :
    F.Holds n (fun _ => True) (BuiltIn.assignAll m realm v sources) := by
  induction sources with
  | nil => exact .pure trivial
  | cons source rest ih =>
    obtain ⟨hsource, hrest⟩ := freeValues_cons.mp hsources
    refine (holds_ownEnumerable hm hsource _).bind fun ps hps => ?_
    exact (Holds.each fun e he => holds_assign hm realm _ hv e.1 (hps e he)).bind
      fun _ _ => ih hrest

/-- The object above another one lies outside of the fence. -/
theorem Sealed.proto {h : Heap} (hs : F.Sealed n h) (hr : F.Free r) :
    F.FreeRef? (h.object r).proto := (hs.object r hr).proto

theorem holds_objectFunctions : ∀ b ∈ BuiltIn.objectFunctions, F.HoldsBuiltIn b := by
  simp -zeta only [BuiltIn.objectFunctions, List.forall_mem_cons, List.not_mem_nil, false_implies,
    implies_true, and_true]
  refine ⟨?keys, ?values, ?entries, ?fromEntries, ?assign, ?create, ?freeze, ?sealing,
    ?preventExtensions, ?isFrozen, ?isSealed, ?isExtensible, ?defineProperty, ?defineProperties,
    ?getOwnPropertyDescriptor, ?getOwnPropertyDescriptors, ?getOwnPropertyNames, ?getPrototypeOf,
    ?setPrototypeOf, ?is, ?hasOwn⟩
  all_goals
    intro n m realm this args hm _ hargs
    have harg := hargs.argument
    dsimp -zeta only
  case keys =>
    refine (holds_toObject realm (harg 0)).bind fun r hr => ?_
    exact (holds_ownEnumerable hm (freeValue_obj.mpr hr) _).bind fun _ _ => holds_keyArray _
  case values =>
    refine (holds_toObject realm (harg 0)).bind fun r hr => ?_
    refine (holds_ownEnumerable hm (freeValue_obj.mpr hr) _).bind fun ps hps => ?_
    refine holds_newArray realm fun v hv => ?_
    obtain ⟨p, hp, rfl⟩ := List.mem_map.mp hv
    exact hps p hp
  case entries =>
    refine (holds_toObject realm (harg 0)).bind fun r hr => ?_
    refine (holds_ownEnumerable hm (freeValue_obj.mpr hr) _).bind fun ps hps => ?_
    refine (Holds.collect fun p hp => ?_).bind fun _ hvs => holds_newArray realm hvs
    exact holds_newArray realm (by simpa using hps p hp)
  case fromEntries =>
    refine (holds_elements hm (harg 0)).bind fun vs hvs => ?_
    refine (Holds.collect (R := fun e : Key × Value => F.FreeValue e.2) fun e he => ?_).bind
      fun _ hps => holds_newObject realm hps
    refine (holds_get hm realm (hvs e he) _).bind fun k hk => (holds_toKey hm realm hk).bind
      fun _ _ => ?_
    exact (holds_get hm realm (hvs e he) _).map fun _ hv => hv
  case assign =>
    refine (holds_toObject realm (harg 0)).bind fun r hr => ?_
    exact (holds_assignAll hm (freeValue_obj.mpr hr) hargs.tail).bind fun _ _ => .pure hr
  case create =>
    extract_lets rest
    have hrest {proto : Option Ref} (hp : F.FreeRef? proto) :
        F.Holds n F.FreeValue (rest proto) := by
      refine (holds_addPlain hp).bind fun r hr => ?_
      split
      · exact .pure hr
      · exact (holds_defineAll hm hr (harg 1)).bind fun _ _ => .pure hr
    have hproto := harg 0
    split
    · next r hr =>
      rw [hr] at hproto
      exact .pure_bind (hrest (freeRef?_some.mpr hproto))
    · exact .pure_bind (hrest freeRef?_none)
    · exact (holds_typeError realm _).bind fun _ hp => hrest hp
  case freeze => exact holds_fix true (harg 0)
  case sealing => exact holds_fix false (harg 0)
  case preventExtensions =>
    have hv := harg 0
    dsimp only
    split
    · next r hr =>
      rw [hr] at hv
      exact .bind (.change fun h hs => hs.modifyObject hv
        ⟨(hs.object r hv).kind, hs.proto hv, (hs.object r hv).props⟩) fun _ _ => .pure (hr ▸ hv)
    · exact .pure hv
  case isFrozen => exact holds_fixedObject true _
  case isSealed => exact holds_fixedObject false _
  case isExtensible =>
    split
    · exact .read_bind fun _ _ => .pure trivial
    · exact .pure trivial
  case defineProperty =>
    refine (holds_needObject (harg 0)).bind fun r hr => (holds_toKey hm realm (harg 1)).bind
      fun k _ => ?_
    exact (holds_defineAs hm hr k (harg 2)).bind fun _ _ => .pure hr
  case defineProperties =>
    exact (holds_needObject (harg 0)).bind fun r hr =>
      (holds_defineAll hm hr (harg 1)).bind fun _ _ => .pure hr
  case getOwnPropertyDescriptor =>
    refine (holds_toObject realm (harg 0)).bind fun r hr => (holds_toKey hm realm (harg 1)).bind
      fun k _ => .read_bind fun h hs => ?_
    split
    · next p hp => exact holds_describe (hs.own hr k p hp)
    · exact .pure trivial
  case getOwnPropertyDescriptors =>
    refine (holds_toObject realm (harg 0)).bind fun r hr => .read_bind fun h hs => ?_
    refine (Holds.collect (R := fun e : Key × Value => F.FreeValue e.2) fun e he => ?_).bind
      fun _ hps => holds_newObject realm hps
    obtain ⟨k, -, hk⟩ := List.mem_filterMap.mp he
    obtain ⟨p, hp, rfl⟩ := Option.map_eq_some_iff.mp hk
    exact (holds_describe (hs.own hr k p hp)).map fun _ hv => hv
  case getOwnPropertyNames =>
    exact (holds_toObject realm (harg 0)).bind fun r hr => .read_bind fun _ _ => holds_keyArray _
  case getPrototypeOf =>
    refine (holds_toObject realm (harg 0)).bind fun r hr => .read_bind fun h hs => ?_
    split
    · next p hp => exact .pure (hs.proto hr p hp)
    · exact .pure trivial
  case setPrototypeOf =>
    have hv := harg 0
    extract_lets finish rest
    have hfinish : F.Holds n F.FreeValue (finish ()) := .pure hv
    have hrest {proto : Option Ref} (hp : F.FreeRef? proto) :
        F.Holds n F.FreeValue (rest proto) := by
      dsimp -zeta only [rest]
      split
      · next r hr =>
        rw [hr] at hv
        exact (holds_changeProto hv hp).bind fun _ _ => .guard (holds_typeError realm _) hfinish
      · exact .bind (Q := fun _ => True) (holds_typeError realm _) fun _ _ => hfinish
      · exact .bind (Q := fun _ => True) (holds_typeError realm _) fun _ _ => hfinish
      · exact .pure_bind hfinish
    have hproto := harg 1
    split
    · next r hr =>
      rw [hr] at hproto
      exact .pure_bind (hrest (freeRef?_some.mpr hproto))
    · exact .pure_bind (hrest freeRef?_none)
    · exact (holds_typeError realm _).bind fun _ hp => hrest hp
  case is => exact .pure trivial
  case hasOwn =>
    exact (holds_toObject realm (harg 0)).bind fun r hr => (holds_toKey hm realm (harg 1)).bind
      fun k _ => .read_bind fun _ _ => .pure trivial

/-! ## What objects inherit -/

theorem holds_objectMethods : ∀ b ∈ BuiltIn.objectMethods, F.HoldsBuiltIn b := by
  simp -zeta only [BuiltIn.objectMethods, List.forall_mem_cons, List.not_mem_nil, false_implies,
    implies_true, and_true]
  refine ⟨?hasOwnProperty, ?isPrototypeOf, ?propertyIsEnumerable, ?toLocaleString, ?toString,
    ?valueOf⟩
  all_goals
    intro n m realm this args hm hthis hargs
    have harg := hargs.argument
  case hasOwnProperty | propertyIsEnumerable =>
    exact (holds_toKey hm realm (harg 0)).bind fun k _ => (holds_toObject realm hthis).bind
      fun r _ => .read_bind fun _ _ => .pure trivial
  case isPrototypeOf =>
    dsimp only
    split
    · exact (holds_toObject realm hthis).bind fun r _ => .read_bind fun _ _ => .pure trivial
    · exact .pure trivial
  case toLocaleString => exact holds_method hm realm hthis _ freeValues_nil
  case toString => exact .read_bind fun _ _ => .pure trivial
  case valueOf => exact (holds_toObject realm hthis).map fun _ hr => hr

theorem holds_protoAccessors : ∀ b ∈ BuiltIn.protoAccessors, F.HoldsBuiltIn b := by
  simp -zeta only [BuiltIn.protoAccessors, List.forall_mem_cons, List.not_mem_nil, false_implies,
    implies_true, and_true]
  refine ⟨?get, ?set⟩
  all_goals intro n m realm this args hm hthis hargs
  case get =>
    refine (holds_toObject realm hthis).bind fun r hr => .read_bind fun h hs => ?_
    split
    · next p hp => exact .pure (hs.proto hr p hp)
    · exact .pure trivial
  case set =>
    have hproto := hargs.argument 0
    dsimp -zeta only
    extract_lets finish rest
    have hrest {proto : Option (Option Ref)} (hp : ∀ p, proto = some p → F.FreeRef? p) :
        F.Holds n F.FreeValue (rest proto) := by
      dsimp -zeta only [rest]
      split
      · next r p =>
        exact (holds_changeProto hthis (hp _ rfl)).bind fun _ _ =>
          .guard (holds_typeError realm _) (.pure trivial)
      · exact .pure trivial
    split
    · next r hr =>
      rw [hr] at hproto
      exact .pure_bind (hrest fun _ h => Option.some.inj h ▸ freeRef?_some.mpr hproto)
    · exact .pure_bind (hrest fun _ h => Option.some.inj h ▸ freeRef?_none)
    · exact .pure_bind (hrest nofun)

end LoadHook.Script.Fence
