import LoadHook.Proofs.Fence.Reference

/-!
# Functions and classes outside of a fence

A function that is made outside of a fence keeps a scope outside of it. So its body, which runs in a
new scope inside of that one, finds nothing behind the fence, whoever calls it.
-/
namespace LoadHook.Script.Fence

variable {F : Fence} {n : Nat} {m : Machine} (hm : F.Trusts m) {ctx : Context}
  (hctx : F.FreeContext ctx) {realm : RealmRef} {c : Closure} (hc : F.CleanClosure c)
  {r newTarget : Ref} {v : Value} {args : List Value}

/-! ## Making functions -/

include hctx

theorem holds_makeFunction (named : Bool) {home : Option Ref} (hhome : F.FreeRef? home)
    (f : Func) : F.Holds n F.Free (Machine.makeFunction ctx named home f) := by
  refine .update fun h hs => ?_
  split
  · have hinner := hs.addInner hctx.scope
    have hclosure := hinner.addClosure (c := ⟨f, h.scopes.size, ctx.realm, home, []⟩)
      ⟨hs.freeScope_new, hctx.realm, hhome, nofun⟩
    exact ⟨hclosure.1, hclosure.2.bind hs.freeScope_new _ (freeValue?_some.mpr hclosure.1)⟩
  · exact hs.addClosure ⟨hctx.scope, hctx.realm, hhome, nofun⟩

theorem holds_declareFunctions (body : List Stmt) :
    F.Holds n (fun _ => True) (Machine.declareFunctions ctx body) :=
  .each fun f _ => (holds_makeFunction hctx false freeRef?_none f).bind fun _ hr =>
    holds_setSlot hctx.scope _ hr

theorem holds_prepare (body : List Stmt) :
    F.Holds n (fun _ => True) (Machine.prepare ctx body) :=
  (holds_announce hctx.scope _).bind fun _ _ => holds_declareFunctions hctx body

include hm in
theorem holds_sequence (body : List Stmt) :
    F.Holds n F.FreeCompletion (m.sequence ctx body) := by
  induction body with
  | nil => exact .pure trivial
  | cons s rest ih =>
    refine (hm.stmt s hctx).bind fun c hc => ?_
    cases c with
    | normal => exact ih
    | _ => exact .pure hc

omit hctx

/-! ## Calling functions -/

include hc

theorem holds_receiverOf (hv : F.FreeValue v) :
    F.Holds n F.FreeReceiver (Machine.receiverOf c v) := by
  have global : F.Holds n F.FreeReceiver (do
      return .value (.obj (← Eval.read fun h => (h.realm c.realm).global))) :=
    .read_bind fun h hs => .pure (hs.global _ hc.realm)
  unfold Machine.receiverOf
  split
  · exact .pure trivial
  · refine .ite (.pure hv) ?_
    cases v with
    | undefined => exact global
    | null => exact global
    | obj r => exact .pure hv
    | _ => exact (holds_toObject c.realm hv).map fun _ hr => hr

omit hc in
theorem holds_argumentsObject (hargs : F.FreeValues args) :
    F.Holds n F.FreeValue (Machine.argumentsObject realm args) := by
  refine .update fun h hs => ⟨hs.free_new, hs.addObject ⟨trivial, ?_, ?_⟩⟩
  · exact freeRef?_some.mpr (hs.realm realm).objectProto
  · refine cleanProps_cons.mpr ⟨trivial, fun e he => ?_⟩
    obtain ⟨⟨v, i⟩, hv, rfl⟩ := List.mem_map.mp he
    exact hargs v (List.fst_mem_of_mem_zipIdx hv)

include hm

/-- The body of a function runs in a new scope, and finds nothing behind the fence. -/
theorem holds_runBody {receiver : Receiver} (hr : F.Free r) (hreceiver : F.FreeReceiver receiver)
    (hv : F.FreeValue v) (hargs : F.FreeValues args) :
    F.Holds n (fun p => F.FreeScope p.1 ∧ F.FreeValue p.2) (m.runBody r c receiver v args) := by
  unfold Machine.runBody
  extract_lets f vars
  refine .bind (Q := F.FreeScope) (.update fun h hs => ⟨hs.freeScope_new, hs.addScope ?_⟩)
    fun scope hscope => ?_
  · refine ⟨fun e he => ?_, freeRef?_none, ?_, hreceiver, freeRef?_some.mpr hr, hv⟩
    · obtain ⟨k, -, rfl⟩ := List.mem_map.mp he
      exact freeValue?_some.mpr trivial
    · exact fun up hup => Option.some.inj hup ▸ hc.scope
  extract_lets ctx body rest
  have hctx : F.FreeContext ctx := ⟨hscope, hc.realm, hscope⟩
  have hbody : F.Holds n (fun p => F.FreeScope p.1 ∧ F.FreeValue p.2) (body ()) := by
    refine (holds_prepare hctx _).bind fun _ _ => (holds_sequence hm hctx _).bind fun c hc => ?_
    cases c with
    | «return» v => exact .pure ⟨hscope, hc⟩
    | _ => exact .pure ⟨hscope, trivial⟩
  have hrest : F.Holds n (fun p => F.FreeScope p.1 ∧ F.FreeValue p.2) (rest ()) := by
    refine (holds_bindTargets hm hctx _ _ hargs).bind fun _ _ => ?_
    split
    · exact (holds_newArray _ (hargs.drop _)).bind fun _ hlist =>
        (hm.bind _ _ hctx hlist).bind fun _ _ => hbody
    · exact hbody
  split
  · exact hrest
  · exact (holds_argumentsObject hargs).bind fun _ hlist =>
      (holds_setSlot hscope _ hlist).bind fun _ _ => hrest

theorem holds_callClosure (hr : F.Free r) (hv : F.FreeValue v) (hargs : F.FreeValues args) :
    F.Holds n F.FreeValue (m.callClosure realm r c v args) := by
  unfold Machine.callClosure
  split
  · exact holds_typeError realm _
  · refine (holds_receiverOf hc hv).bind fun receiver hreceiver => ?_
    exact (holds_runBody hm hc hr hreceiver freeValue_undefined hargs).map fun _ hp => hp.2

omit hc

/-! ## Constructing objects -/

/-- The object above what a constructor makes lies outside of the fence. -/
theorem holds_protoFor (hnew : F.Free newTarget) {default : Realm → Ref}
    (hdefault : ∀ r, F.FreeRealm r → F.Free (default r)) :
    F.Holds n F.Free (m.protoFor realm newTarget default) := by
  refine (holds_getRef hm realm hnew _).bind fun v hv => ?_
  cases v with
  | obj proto => exact .pure hv
  | _ => exact .read fun h hs => hdefault _ (hs.realm _)

theorem holds_newInstance (hnew : F.Free newTarget) :
    F.Holds n F.FreeValue (m.newInstance realm newTarget) :=
  (holds_protoFor hm hnew fun _ hr => hr.objectProto).bind fun _ hproto =>
    (holds_addPlain (freeRef?_some.mpr hproto)).map fun _ hr => hr

theorem holds_addFields (hv : F.FreeValue v) {fields : List (Key × Ref)}
    (hfields : ∀ e ∈ fields, F.Free e.2) :
    F.Holds n (fun _ => True) (m.addFields realm v fields) := by
  cases v with
  | obj r =>
    refine .each fun e he => ?_
    refine (hm.call realm (freeValue_obj.mpr (hfields e he)) hv freeValues_nil).bind fun x hx => ?_
    exact (holds_define hv _ (cleanDescriptor_plain hx)).bind fun _ _ => .pure trivial
  | _ => exact .pure trivial

include hc in
theorem holds_constructClosure (hr : F.Free r) (hargs : F.FreeValues args)
    (hnew : F.Free newTarget) :
    F.Holds n F.FreeValue (m.constructClosure realm r c args newTarget) := by
  unfold Machine.constructClosure
  extract_lets target
  split
  case h_3 =>
    refine (holds_runBody hm hc hr freeReceiver_unset (freeValue_obj.mpr hnew) hargs).bind
      fun p hp => ?_
    obtain ⟨scope, v⟩ := p
    obtain ⟨hscope, hv⟩ := hp
    dsimp only
    split
    · exact .pure hv
    · refine .read_bind fun h hs => ?_
      have hreceiver := (hs.scope scope hscope).receiver
      split
      · next v hk =>
        rw [hk] at hreceiver
        exact .pure hreceiver
      · exact holds_raise _ _ _
  case h_4 => exact holds_typeError realm _
  case h_5 => exact holds_typeError realm _
  all_goals
    refine (holds_newInstance hm hnew).bind fun v hv => ?_
    refine (holds_addFields hm hv hc.fields).bind fun _ _ => ?_
    refine (holds_runBody hm hc hr (freeReceiver_value.mpr hv) (freeValue_obj.mpr hnew) hargs).bind
      fun p hp => ?_
    split
    · next x hx => exact .pure (hx ▸ hp.2)
    · exact .pure hv

include hctx

/-- The constructor of the parent class is called outside of the fence. -/
theorem holds_callParent (hargs : F.FreeValues args) :
    F.Holds n F.FreeValue (m.callParent ctx args) := by
  refine .bind (Q := F.FreeScope) (.read fun h hs => hs.receiverScope hctx.scope)
    fun scope hscope => .read_bind fun h hs => ?_
  have hclean := hs.scope scope hscope
  dsimp only
  split
  · next parent new hparent hnew =>
    obtain ⟨callee, hcallee, hproto⟩ := Option.bind_eq_some_iff.mp hparent
    have hfree : F.Free parent := (hs.object callee (hclean.callee _ hcallee)).proto _ hproto
    have hnewTarget : F.FreeValue (.obj new) := hnew ▸ hclean.newTarget
    refine .read_bind fun h _ => .guard (holds_typeError _ _) ?_
    refine (hm.construct _ hfree hargs hnewTarget).bind fun v hv => .read_bind fun h _ => ?_
    split
    · refine .bind (.change fun h hs => hs.withReceiver hscope hv) fun _ _ => ?_
      exact (holds_addFields hm hv (hs.fields hclean.callee)).bind fun _ _ => .pure hv
    · exact holds_raise _ _ _
  · exact holds_typeError _ _

/-! ## Members and classes -/

omit hm in
theorem holds_defineMethod {target : Ref} (htarget : F.Free target) (enumerable : Bool) (k : Key)
    (kind : MemberKind) (f : Func) :
    F.Holds n (fun _ => True) (Machine.defineMethod ctx target enumerable k kind f) := by
  unfold Machine.defineMethod
  extract_lets name
  refine (holds_makeFunction hctx false (freeRef?_some.mpr htarget) _).bind fun r hr => ?_
  refine (holds_define htarget k ?_).bind fun _ _ => .pure trivial
  cases kind with
  | value => exact ⟨freeValue?_some.mpr hr, nofun, nofun⟩
  | getter => exact ⟨nofun, fun g hg => Option.some.inj hg ▸ freeRef?_some.mpr hr, nofun⟩
  | setter => exact ⟨nofun, nofun, fun s hs => Option.some.inj hs ▸ freeRef?_some.mpr hr⟩

theorem holds_classParents (parent : Option Expr) :
    F.Holds n (fun p => F.FreeRef? p.1 ∧ F.Free p.2) (m.classParents ctx parent) := by
  refine .read_bind fun h hs => ?_
  have hrealm := hs.realm ctx.realm
  cases parent with
  | none => exact .pure ⟨freeRef?_some.mpr hrealm.objectProto, hrealm.functionProto⟩
  | some e =>
    refine (hm.expr e hctx).bind fun v hv => ?_
    cases v with
    | null => exact .pure ⟨freeRef?_none, hrealm.functionProto⟩
    | obj r =>
      refine .read_bind fun h _ => .guard (holds_typeError _ _) ?_
      refine (holds_getRef hm _ hv _).bind fun proto hproto => ?_
      cases proto with
      | obj proto => exact .pure ⟨freeRef?_some.mpr hproto, hv⟩
      | null => exact .pure ⟨freeRef?_none, hv⟩
      | _ => exact holds_typeError _ _
    | _ => exact holds_typeError _ _

theorem holds_classMembers {f proto : Ref} (hf : F.Free f) (hproto : F.Free proto)
    (members : List Member) :
    F.Holds n (fun p => (∀ e ∈ p.1, F.Free e.2) ∧ ∀ e ∈ p.2, F.Free e.2)
      (m.classMembers ctx f proto members) := by
  have htarget (static : Bool) : F.Free (if static then f else proto) := by
    split
    · exact hf
    · exact hproto
  induction members with
  | nil => exact .pure ⟨nofun, nofun⟩
  | cons member rest ih =>
    cases member with
    | method static name kind func =>
      refine (hm.expr name hctx).bind fun _ hname => (holds_toKey hm _ hname).bind fun k _ => ?_
      exact (holds_defineMethod hctx (htarget static) false k kind func).bind fun _ _ => ih
    | field static name e =>
      cases e with
      | function named func =>
        refine (hm.expr name hctx).bind fun _ hname => (holds_toKey hm _ hname).bind fun k _ => ?_
        refine (holds_makeFunction hctx false (freeRef?_some.mpr (htarget static)) func).bind
          fun value hvalue => ih.bind fun p hp => ?_
        obtain ⟨own, fields⟩ := p
        dsimp only
        split
        · exact .pure ⟨List.forall_mem_cons.mpr ⟨hvalue, hp.1⟩, hp.2⟩
        · exact .pure ⟨hp.1, List.forall_mem_cons.mpr ⟨hvalue, hp.2⟩⟩
      | _ => exact ih
    | _ => exact ih

/-- A class is made outside of the fence. -/
theorem holds_classValue (c : ClassTree) : F.Holds n F.FreeValue (m.classValue ctx c) := by
  obtain ⟨name, parent, constructor, members⟩ := c
  refine (holds_inner hctx).bind fun inner hinner => ?_
  extract_lets inside rest
  have hinside : F.FreeContext inside := ⟨hinner.scope, hinner.realm, hinner.vars⟩
  have hrest : F.Holds n F.FreeValue (rest ()) := by
    refine (holds_classParents hm hinside parent).bind fun above habove => ?_
    refine (holds_addPlain habove.1).bind fun proto hproto => ?_
    refine (holds_makeFunction hinside false (freeRef?_some.mpr hproto) constructor).bind
      fun f hf => ?_
    refine .bind (.change fun h hs => ?_) fun _ _ => ?_
    · have hs := hs.withProto hf (freeRef?_some.mpr habove.2)
      exact (hs.putData hf _ (freeValue_obj.mpr hproto)).putData hproto _ (freeValue_obj.mpr hf)
    refine (holds_classMembers hm hinside hf hproto members).bind fun p hp => ?_
    refine .bind (.change fun h hs => hs.modifyObject hf ?_) fun _ _ => ?_
    · have hclean := hs.object f hf
      split
      · next c hk =>
        have hkind := hclean.kind
        rw [hk] at hkind
        exact ⟨{ hkind with fields := hp.2 }, hclean.proto, hclean.props⟩
      · exact hclean
    refine .guard (holds_setSlot hinner.scope _ (freeValue_obj.mpr hf)) ?_
    exact (holds_addFields hm (freeValue_obj.mpr hf) hp.1).bind fun _ _ => .pure hf
  exact .guard (holds_announce hinner.scope _) hrest

end LoadHook.Script.Fence
