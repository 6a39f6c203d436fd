import LoadHook.Proofs.Fence.Run

/-!
# Properties and conversions outside of a fence

The operations of the language hold a fence as long as the functions that they call do. What they
give comes from outside of the fence if what they are given does.
-/
namespace LoadHook.Script.Fence

variable {F : Fence} {n : Nat} {α : Type} {Q : α → Prop}

/-- Code runs in scopes outside of the fence, and not for a realm behind it. -/
structure FreeContext (F : Fence) (ctx : Context) : Prop where
  scope : F.FreeScope ctx.scope
  realm : ¬ F.closed ctx.realm
  vars : F.FreeScope ctx.vars

/-- The code may go on in another scope outside of the fence. -/
theorem FreeContext.withScope {ctx : Context} {s : ScopeRef} (hctx : F.FreeContext ctx)
    (hs : F.FreeScope s) : F.FreeContext { ctx with scope := s } := ⟨hs, hctx.realm, hctx.vars⟩

def FreeCompletion (F : Fence) : Completion → Prop
  | .return v => F.FreeValue v
  | _ => True

/-- The parts of evaluation hold the fence. -/
structure Trusts (F : Fence) (m : Machine) : Prop where
  expr : ∀ {n ctx} (e : Expr), F.FreeContext ctx → F.Holds n F.FreeValue (m.expr ctx e)
  stmt : ∀ {n ctx} (s : Stmt), F.FreeContext ctx → F.Holds n F.FreeCompletion (m.stmt ctx s)
  bind : ∀ {n ctx v} (mode : Binding.Mode) (p : Pattern), F.FreeContext ctx → F.FreeValue v →
    F.Holds n (fun _ => True) (m.bind ctx mode p v)
  call : ∀ {n f this args} (realm : RealmRef), F.FreeValue f → F.FreeValue this →
    F.FreeValues args → F.Holds n F.FreeValue (m.call realm f this args)
  construct : ∀ {n f args newTarget} (realm : RealmRef), F.Free f → F.FreeValues args →
    F.Free newTarget → F.Holds n F.FreeValue (m.construct realm f args newTarget)

variable {m : Machine} (hm : F.Trusts m) (realm : RealmRef) {r : Ref} {k : Key}
  {f this v v' : Value} {args : List Value}

/-! ## Errors -/

theorem holds_makeError (kind : ErrorKind) (message : String) :
    F.Holds n F.FreeValue (makeError realm kind message) :=
  .update fun _ hs => ⟨hs.free_new, hs.addError (by simp [stackProperty])⟩

theorem holds_raise (kind : ErrorKind) (message : String) :
    F.Holds n Q (raise realm kind message) :=
  (holds_makeError realm kind message).bind fun _ hv => .throw hv

theorem holds_typeError (message : String) : F.Holds n Q (typeError realm message) :=
  holds_raise realm .type message

/-! ## New objects -/

theorem holds_newObject {props : List (Key × Value)} (hprops : ∀ e ∈ props, F.FreeValue e.2) :
    F.Holds n F.FreeValue (newObject realm props) := by
  refine .update fun h hs => ⟨hs.free_new, hs.addObject ⟨trivial, ?_, fun e he => ?_⟩⟩
  · exact freeRef?_some.mpr (hs.realm realm).objectProto
  · obtain ⟨p, hp, rfl⟩ := List.mem_map.mp he
    exact hprops p hp

theorem holds_addArray {items : List (Option Value)} (hitems : F.FreeItems items) :
    F.Holds n F.Free (Eval.update fun h => h.addArray (h.realm realm).arrayProto items) :=
  .update fun _ hs => ⟨hs.free_new, hs.addArray (hs.realm realm).arrayProto hitems⟩

theorem holds_newArray {items : List Value} (hitems : F.FreeValues items) :
    F.Holds n F.FreeValue (newArray realm items) :=
  .update fun _ hs =>
    ⟨hs.free_new, hs.addArray (hs.realm realm).arrayProto (freeItems_map_some.mpr hitems)⟩

theorem holds_addPlain {proto : Option Ref} (hp : F.FreeRef? proto) :
    F.Holds n F.Free (Eval.update (·.addPlain proto)) :=
  .update fun _ hs => ⟨hs.free_new, hs.addPlain hp⟩

/-! ## Access to properties -/

theorem holds_define (hr : F.Free r) (k : Key) {d : Descriptor} (hd : F.CleanDescriptor d) :
    F.Holds n (fun _ => True) (Eval.update (·.define r k d)) :=
  .update fun _ hs => ⟨trivial, hs.define hr k hd⟩

theorem holds_delete (hr : F.Free r) (k : Key) :
    F.Holds n (fun _ => True) (Eval.update (·.delete r k)) :=
  .update fun _ hs => ⟨trivial, hs.delete hr k⟩

/-- A value has its properties outside of the fence. -/
theorem Sealed.prototypeOf {h : Heap} (hs : F.Sealed n h) (hv : F.FreeValue v) :
    F.FreeRef? (Machine.prototypeOf h realm v) := by
  have hrealm := hs.realm realm
  cases v with
  | obj r => exact freeRef?_some.mpr hv
  | str s => exact freeRef?_some.mpr hrealm.stringProto
  | num x => exact freeRef?_some.mpr hrealm.numberProto
  | bool b => exact freeRef?_some.mpr hrealm.booleanProto
  | undefined => exact freeRef?_none
  | null => exact freeRef?_none

include hm

theorem holds_invoke (hf : F.FreeValue f) (hthis : F.FreeValue this) (hargs : F.FreeValues args) :
    F.Holds n F.FreeValue (m.invoke realm f this args) :=
  .read_bind fun _ _ => .ite (hm.call realm hf hthis hargs) (holds_typeError realm _)

theorem holds_valueOf {p : Option Property} (hthis : F.FreeValue this) (hp : F.Clean? p) :
    F.Holds n F.FreeValue (m.valueOf realm this p) := by
  cases p with
  | none => exact .pure trivial
  | some p =>
    have hclean := clean?_some.mp hp
    obtain ⟨content, e, c⟩ := p
    cases content with
    | data v w => exact .pure hclean
    | accessor g s =>
      cases g with
      | none => exact .pure trivial
      | some g => exact hm.call realm (hclean.1 g rfl) hthis freeValues_nil

theorem holds_getRef (hr : F.Free r) (k : Key) : F.Holds n F.FreeValue (m.getRef realm r k) :=
  .read_bind fun _ hs => holds_valueOf hm realm hr (hs.find hr k)

theorem holds_get (hv : F.FreeValue v) (k : Key) : F.Holds n F.FreeValue (m.get realm v k) := by
  unfold Machine.get
  dsimp only
  split
  · next p hp =>
    refine holds_valueOf hm realm hv ?_
    cases v with
    | str s => exact hp ▸ clean?_unitProperty s k
    | _ => cases hp
  · refine .read_bind fun h hs => ?_
    split
    · next r hr =>
      have hfree := hs.prototypeOf realm hv r hr
      exact .read_bind fun h hs => holds_valueOf hm realm hv (hs.find hfree k)
    · exact holds_typeError realm _

omit hm in
/-- A value is put into an object outside of the fence only. -/
theorem holds_putData (hr : F.Free r) (k : Key) (hv : F.FreeValue v) :
    F.Holds n (fun _ => True) (Machine.putData realm r k v) := by
  refine .read_bind fun h hs => ?_
  have hclean := hs.object r hr
  split
  · split
    · dsimp only
      split
      · split
        · next o whole ho =>
          refine .bind (.change fun h' hs' => ?_) fun _ _ => .pure trivial
          have ho : F.CleanObject h.realms.size o := hclean.setLength cleanDescriptor_empty ho
          exact hs'.modifyObject hr (ho.mono hs'.realmSize)
        · exact .pure trivial
      · exact holds_raise realm _ _
    · exact holds_raise realm _ _
  · split
    · split
      · exact holds_define hr k (cleanDescriptor_value hv)
      · exact .pure trivial
    · exact holds_define hr k (cleanDescriptor_plain hv)

theorem holds_setRef (hr : F.Free r) (k : Key) (hv : F.FreeValue v) (hthis : F.FreeValue this) :
    F.Holds n (fun _ => True) (m.setRef realm r k v this) := by
  refine .read_bind fun h hs => ?_
  split
  · next g s hp =>
    obtain ⟨p, hp, hcontent⟩ := Option.map_eq_some_iff.mp hp
    have hclean := hs.find hr k p hp
    rw [hcontent] at hclean
    exact .bind (hm.call realm (hclean.2 s rfl) hthis (by simpa using hv)) fun _ _ => .pure trivial
  · exact .pure trivial
  · exact .pure trivial
  · split
    · exact holds_putData realm hthis k hv
    · exact .pure trivial

theorem holds_set (hthis : F.FreeValue this) (k : Key) (hv : F.FreeValue v) :
    F.Holds n (fun _ => True) (m.set realm this k v) := by
  refine .read_bind fun h hs => ?_
  split
  · next r hr => exact holds_setRef hm realm (hs.prototypeOf realm hthis r hr) k hv hthis
  · exact holds_typeError realm _

theorem holds_assign (strict : Bool) (hthis : F.FreeValue this) (k : Key) (hv : F.FreeValue v) :
    F.Holds n (fun _ => True) (m.assign realm strict this k v) :=
  (holds_set hm realm hthis k hv).bind fun _ _ => .ite (holds_typeError realm _) (.pure trivial)

theorem holds_method (hv : F.FreeValue v) (k : Key) (hargs : F.FreeValues args) :
    F.Holds n F.FreeValue (m.method realm v k args) :=
  (holds_get hm realm hv k).bind fun _ hf => holds_invoke hm realm hf hv hargs

/-! ## Conversions -/

theorem holds_primitiveOf (hr : F.Free r) (names : List String) :
    F.Holds n F.FreeValue (m.primitiveOf realm r names) := by
  induction names generalizing n with
  | nil => exact holds_typeError realm _
  | cons name rest ih =>
    refine (holds_getRef hm realm hr _).bind fun f hf => .read_bind fun h _ => .ite ?_ ih
    refine (hm.call realm hf (freeValue_obj.mpr hr) freeValues_nil).bind fun v hv => ?_
    cases v with
    | obj x => exact ih
    | _ => exact .pure hv

theorem holds_toPrimitive (hint : Hint) (hv : F.FreeValue v) :
    F.Holds n F.FreeValue (m.toPrimitive realm hint v) := by
  cases v with
  | obj r => exact holds_primitiveOf hm realm hv _
  | _ => exact .pure hv

theorem holds_toText (hv : F.FreeValue v) : F.Holds n (fun _ => True) (m.toText realm v) :=
  (holds_toPrimitive hm realm .text hv).map fun _ _ => trivial

theorem holds_toNumber (hv : F.FreeValue v) : F.Holds n (fun _ => True) (m.toNumber realm v) :=
  (holds_toPrimitive hm realm .number hv).map fun _ _ => trivial

theorem holds_toKey (hv : F.FreeValue v) : F.Holds n (fun _ => True) (m.toKey realm v) :=
  holds_toText hm realm hv

theorem holds_toInteger (hv : F.FreeValue v) : F.Holds n (fun _ => True) (m.toInteger realm v) :=
  (holds_toNumber hm realm hv).bind fun _ _ =>
    .ite (.pure trivial) (.ite (.pure trivial) (.pure trivial))

theorem holds_lengthOf (hv : F.FreeValue v) : F.Holds n (fun _ => True) (m.lengthOf realm v) :=
  (holds_get hm realm hv _).bind fun _ hx => (holds_toInteger hm realm hx).map fun _ _ => trivial

omit hm in
theorem holds_toObject (hv : F.FreeValue v) : F.Holds n F.Free (Machine.toObject realm v) := by
  have wrap {kind : Kind} (proto : Realm → Ref) (hk : ∀ n, F.CleanKind n kind)
      (hp : ∀ r, F.FreeRealm r → F.Free (proto r)) : F.Holds n F.Free
        (Eval.update fun h => h.addObject ⟨kind, some (proto (h.realm realm)), true, []⟩) :=
    .update fun h hs => ⟨hs.free_new, hs.addObject
      ⟨hk _, freeRef?_some.mpr (hp _ (hs.realm realm)), cleanProps_nil⟩⟩
  cases v with
  | obj r => exact .pure hv
  | undefined => exact holds_typeError realm _
  | null => exact holds_typeError realm _
  | bool b => exact wrap Realm.booleanProto (fun _ => trivial) fun _ hr => hr.booleanProto
  | num x => exact wrap Realm.numberProto (fun _ => trivial) fun _ hr => hr.numberProto
  | str s => exact wrap Realm.stringProto (fun _ => trivial) fun _ hr => hr.stringProto

/-! ## Operators -/

theorem holds_looselyEqual (fuel : Nat) {a b : Value} (ha : F.FreeValue a) (hb : F.FreeValue b) :
    F.Holds n (fun _ => True) (m.looselyEqual realm fuel a b) := by
  induction fuel generalizing a b with
  | zero => exact .pure trivial
  | succ fuel ih =>
    have left : F.Holds n (fun _ => True)
        (m.toPrimitive realm .number a >>= fun a => m.looselyEqual realm fuel a b) :=
      (holds_toPrimitive hm realm .number ha).bind fun _ ha => ih ha hb
    have right : F.Holds n (fun _ => True)
        (m.toPrimitive realm .number b >>= fun b => m.looselyEqual realm fuel a b) :=
      (holds_toPrimitive hm realm .number hb).bind fun _ hb => ih ha hb
    have num (x : Float) : F.FreeValue (.num x) := trivial
    unfold Machine.looselyEqual
    split
    any_goals exact .pure trivial
    · split
      · exact .pure trivial
      · exact ih (num _) hb
    · exact ih ha (num _)
    · exact left
    · exact left
    · exact right
    · exact right

theorem holds_isInstance {f v : Value} (hf : F.FreeValue f) :
    F.Holds n (fun _ => True) (m.isInstance realm f v) := by
  unfold Machine.isInstance
  split
  · next r =>
    refine .read_bind fun h hs => .guard (holds_typeError realm _) ?_
    have hclean := (hs.object r hf).kind
    dsimp only
    split
    · refine (holds_getRef hm realm ?_ _).bind fun proto _ => ?_
      · split
        · next target this args hk =>
          rw [hk] at hclean
          exact hclean.1
        · exact hf
      · cases proto with
        | obj r => exact .read fun _ _ => trivial
        | _ => exact holds_typeError realm _
    · exact .pure trivial
  · exact holds_typeError realm _

theorem holds_hasProperty {k : Value} (hk : F.FreeValue k) :
    F.Holds n (fun _ => True) (m.hasProperty realm v k) := by
  cases v with
  | obj r => exact (holds_toKey hm realm hk).bind fun _ _ => .read_bind fun _ _ => .pure trivial
  | _ => exact holds_typeError realm _

section Binary

variable {a b : Value} (ha : F.FreeValue a) (hb : F.FreeValue b)
include ha hb

theorem holds_bitwise (op : UInt32 → UInt32 → UInt32) :
    F.Holds n F.FreeValue (m.bitwise realm op a b) :=
  (holds_toNumber hm realm ha).bind fun _ _ => (holds_toNumber hm realm hb).map fun _ _ => trivial

theorem holds_arithmetic (op : Float → Float → Float) :
    F.Holds n F.FreeValue (m.arithmetic realm op a b) :=
  (holds_toNumber hm realm ha).bind fun _ _ => (holds_toNumber hm realm hb).map fun _ _ => trivial

theorem holds_compare (swap negate : Bool) :
    F.Holds n F.FreeValue (m.compare realm swap negate a b) :=
  (holds_toPrimitive hm realm _ ha).bind fun _ _ =>
    (holds_toPrimitive hm realm _ hb).map fun _ _ => trivial

theorem holds_add : F.Holds n F.FreeValue (m.add realm a b) := by
  refine (holds_toPrimitive hm realm _ ha).bind fun a _ =>
    (holds_toPrimitive hm realm _ hb).bind fun b _ => ?_
  split <;> exact .pure trivial

theorem holds_binary (op : BinaryOp) : F.Holds n F.FreeValue (m.binary realm op a b) := by
  have loose := holds_looselyEqual (n := n) hm realm 4 ha hb
  unfold Machine.binary
  cases op with
  | add => exact holds_add hm realm ha hb
  | sub | mul | div | rem | pow | shiftRight | shiftRightZero =>
    exact holds_arithmetic hm realm ha hb _
  | shiftLeft | bitAnd | bitOr | bitXor => exact holds_bitwise hm realm ha hb _
  | less | greater | lessEq | greaterEq => exact holds_compare hm realm ha hb _ _
  | equal | notEqual => exact loose.map fun _ _ => trivial
  | same | notSame => exact .pure trivial
  | instanceOf => exact (holds_isInstance hm realm hb).map fun _ _ => trivial
  | isIn => exact (holds_hasProperty hm realm ha).map fun _ _ => trivial

end Binary

theorem holds_unary (op : UnaryOp) (hv : F.FreeValue v) :
    F.Holds n F.FreeValue (m.unary realm op v) := by
  unfold Machine.unary
  cases op with
  | minus | plus | bitNot => exact (holds_toNumber hm realm hv).bind fun _ _ => .pure trivial
  | not | void => exact .pure trivial
  | typeOf => exact .read_bind fun _ _ => .pure trivial

end LoadHook.Script.Fence
