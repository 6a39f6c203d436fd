import LoadHook.Proofs.Fence.BuiltIn.Object
import LoadHook.Proofs.Fence.Function
import LoadHook.Script.BuiltIn.Function
import LoadHook.Script.BuiltIn.Maker

/-!
# Functions and constructors outside of a fence

A function is called with what it is given, and what a constructor makes is new. A function from
text runs in the scope of its realm: it holds a fence that does not bar that realm.
-/
namespace LoadHook.Script.Fence

variable {F : Fence} {n : Nat} {m : Machine} {realm : RealmRef} {r : Ref} {v : Value}
  {args : List Value}

/-! ## Functions on functions -/

theorem holds_needFunction (hv : F.FreeValue v) :
    F.Holds n F.Free (BuiltIn.needFunction realm v) := by
  cases v with
  | obj r => exact .read_bind fun _ _ => .ite (.pure hv) (holds_typeError realm _)
  | _ => exact holds_typeError realm _

theorem holds_argumentList (hm : F.Trusts m) (hv : F.FreeValue v) :
    F.Holds n F.FreeValues (BuiltIn.argumentList m realm v) := by
  cases v with
  | undefined | null => exact .pure freeValues_nil
  | obj r =>
    exact (holds_lengthOf hm realm hv).bind fun _ _ => .collect fun i _ => holds_get hm realm hv _
  | _ => exact holds_typeError realm _

theorem holds_functionMethods : ∀ b ∈ BuiltIn.functionMethods, F.HoldsBuiltIn b := by
  simp -zeta only [BuiltIn.functionMethods, List.forall_mem_cons, List.not_mem_nil, false_implies,
    implies_true, and_true]
  refine ⟨?call, ?apply, ?bind, ?toString⟩
  all_goals
    intro n m realm this args hm hthis hargs
    have harg := hargs.argument
    refine (holds_needFunction hthis).bind fun f hf => ?_
  case call => exact hm.call realm hf (harg 0) hargs.tail
  case apply =>
    exact (holds_argumentList hm (harg 1)).bind fun _ hvs => hm.call realm hf (harg 0) hvs
  case bind =>
    refine (holds_getRef hm realm hf _).bind fun length hlength => ?_
    refine (holds_toInteger hm realm hlength).bind fun _ _ => ?_
    extract_lets length rest
    have hrest (name : Text.Utf16) : F.Holds n F.FreeValue (rest name) :=
      .update fun h hs => ⟨hs.free_new, hs.addObject
        ⟨⟨hf, harg 0, hargs.tail⟩, (hs.object f hf).proto, by simp⟩⟩
    refine (holds_getRef hm realm hf _).bind fun name _ => ?_
    split <;> exact .pure_bind (hrest _)
  case toString =>
    refine .read_bind fun h hs => ?_
    split
    · exact .pure trivial
    · refine (holds_getRef hm realm hf _).bind fun name _ => ?_
      extract_lets rest
      have hrest (name : Text.Utf16) : F.Holds h.realms.size F.FreeValue (rest name) :=
        .pure trivial
      split <;> exact .pure_bind (hrest _)

/-! ## Errors -/

theorem holds_errorPart (hm : F.Trusts m) (hv : F.FreeValue v) (name default : String) :
    F.Holds n (fun _ => True) (BuiltIn.errorPart m realm v name default) := by
  refine (holds_get hm realm hv _).bind fun x hx => ?_
  split
  · exact .pure trivial
  · exact holds_toText hm realm hx

theorem holds_errorMethods : ∀ b ∈ BuiltIn.errorMethods, F.HoldsBuiltIn b := by
  simp -zeta only [BuiltIn.errorMethods, List.forall_mem_cons, List.not_mem_nil, false_implies,
    implies_true, and_true]
  intro n m realm this args hm hthis _
  cases this with
  | obj r =>
    exact (holds_errorPart hm hthis _ _).bind fun _ _ =>
      (holds_errorPart hm hthis _ _).bind fun _ _ => .pure trivial
  | _ => exact holds_typeError realm _

theorem holds_newError (hm : F.Trusts m) {proto : Ref} (kind : ErrorKind) (hproto : F.Free proto)
    (hargs : F.FreeValues args) :
    F.Holds n F.FreeValue (BuiltIn.newError m realm kind proto args) := by
  have hmessage := hargs.argument 0
  have hcause := hargs.argument 1
  unfold BuiltIn.newError
  extract_lets rest
  have hrest {n : Nat} {message : List (Key × Property)} (hmessage : F.CleanProps message) :
      F.Holds n F.FreeValue (rest message) := by
    dsimp -zeta only [rest]
    extract_lets finish
    have hfinish {n : Nat} {cause : List (Key × Property)} (hcause : F.CleanProps cause) :
        F.Holds n F.FreeValue (finish cause) := by
      refine .update fun h hs =>
        ⟨hs.free_new, Sealed.withProto ?_ hs.free_new (freeRef?_some.mpr hproto)⟩
      exact hs.addError (by simp [hmessage, hcause, stackProperty])
    split
    · next r hr =>
      rw [hr] at hcause
      refine .read_bind fun h hs => .ite ?_ (.pure_bind (hfinish cleanProps_nil))
      refine (holds_getRef hm realm hcause _).bind fun v hv => .pure_bind (hfinish ?_)
      exact cleanProps_cons.mpr ⟨hv, cleanProps_nil⟩
    · exact .pure_bind (hfinish cleanProps_nil)
  split
  · exact .pure_bind (hrest cleanProps_nil)
  · refine (holds_toText hm realm hmessage).bind fun s _ => .pure_bind (hrest ?_)
    exact cleanProps_cons.mpr ⟨trivial, cleanProps_nil⟩

/-! ## Making -/

theorem holds_functionFromText (hm : F.Trusts m) (hopen : ¬ F.closed realm) (hrealm : realm < n)
    (hargs : F.FreeValues args) :
    F.Holds n F.FreeValue (BuiltIn.functionFromText m realm args) := by
  refine (Holds.collect (R := fun _ => True) fun v hv => ?_).bind fun texts _ => ?_
  · exact (holds_toText hm realm (hargs v hv)).bind fun _ _ => .pure trivial
  dsimp only
  split
  · refine .read_bind fun h hs => ?_
    have hscope := hs.lexical realm hopen (Nat.lt_of_lt_of_le hrealm hs.realmSize)
    exact hm.expr _ ⟨hscope, hopen, hscope⟩
  · exact holds_raise realm _ _
  · exact holds_raise realm _ _

theorem holds_newArrayFor {proto : Ref} (hproto : F.Free proto) (hargs : F.FreeValues args) :
    F.Holds n F.FreeValue (BuiltIn.newArrayFor realm proto args) := by
  unfold BuiltIn.newArrayFor
  split
  · refine .guard (holds_raise realm _ _)
      (.bind (.update fun h hs => ⟨hs.free_new, hs.addObject ?_⟩) fun _ hr => .pure hr)
    exact ⟨trivial, freeRef?_some.mpr hproto, by simp⟩
  · exact .bind
      (.update fun h hs => ⟨hs.free_new, hs.addArray hproto (freeItems_map_some.mpr hargs)⟩)
      fun _ hr => .pure hr

theorem holds_wrap {kind : Kind} {proto : Ref} (hkind : ∀ n, F.CleanKind n kind)
    (hproto : F.Free proto) : F.Holds n F.FreeValue (BuiltIn.wrap kind proto) :=
  .bind (.update fun _ hs => ⟨hs.free_new,
    hs.addObject ⟨hkind _, freeRef?_some.mpr hproto, cleanProps_nil⟩⟩) fun _ hr => .pure hr

/-- What a constructor makes stands below an object of its realm. -/
theorem FreeRealm.protoOf {r : Realm} (hr : F.FreeRealm r) (maker : Maker) :
    F.Free (BuiltIn.protoOf maker r) := by
  cases maker with
  | error kind =>
    have hproto := hr.errorProto kind
    unfold BuiltIn.protoOf
    cases hk : r.errorProtos.lookup kind with
    | none => simpa [hk] using hr.objectProto
    | some proto => simpa [hk] using hproto proto hk
  | object => exact hr.objectProto
  | function => exact hr.functionProto
  | array => exact hr.arrayProto
  | string => exact hr.stringProto
  | number => exact hr.numberProto
  | boolean => exact hr.booleanProto

/-- A constructor makes something outside of the fence; one that makes functions from text belongs
to a realm outside of it. -/
theorem holds_make (hm : F.Trusts m) {maker : Maker} (hmaker : F.CleanNative n (.maker maker) realm)
    (hargs : F.FreeValues args) {newTarget : Option Ref} (hnew : F.FreeRef? newTarget) :
    F.Holds n F.FreeValue (BuiltIn.make m realm maker args newTarget) := by
  have hv := hargs.argument 0
  have wrapped {kind : Kind} {proto : Ref} {v : Value} (hkind : ∀ n, F.CleanKind n kind)
      (hproto : F.Free proto) (hv : F.FreeValue v) : F.Holds n F.FreeValue
        (if newTarget.isSome then BuiltIn.wrap kind proto else pure v) :=
    .ite (holds_wrap hkind hproto) (.pure hv)
  unfold BuiltIn.make
  extract_lets v rest
  have hrest {proto : Ref} (hproto : F.Free proto) : F.Holds n F.FreeValue (rest proto) := by
    cases maker with
    | object =>
      exact .ite ((holds_toObject realm hv).bind fun _ hr => .pure hr)
        ((holds_addPlain (freeRef?_some.mpr hproto)).bind fun _ hr => .pure hr)
    | function => exact holds_functionFromText hm hmaker.1 hmaker.2 hargs
    | array => exact holds_newArrayFor hproto hargs
    | string =>
      exact .ite (.pure_bind (wrapped (fun _ => trivial) hproto trivial))
        ((holds_toText hm realm hv).bind fun _ _ => wrapped (fun _ => trivial) hproto trivial)
    | number =>
      exact .ite (.pure_bind (wrapped (fun _ => trivial) hproto trivial))
        ((holds_toNumber hm realm hv).bind fun _ _ => wrapped (fun _ => trivial) hproto trivial)
    | boolean => exact wrapped (fun _ => trivial) hproto trivial
    | error kind => exact holds_newError hm kind hproto hargs
  cases newTarget with
  | some r =>
    exact (holds_protoFor hm (hnew r rfl) fun _ hr => hr.protoOf maker).bind fun _ hp => hrest hp
  | none => exact .bind (.read fun h hs => (hs.realm realm).protoOf maker) fun _ hp => hrest hp

end LoadHook.Script.Fence
