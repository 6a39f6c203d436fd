import LoadHook.Proofs.Fence.Function
import LoadHook.Script.Expression

/-!
# Expressions outside of a fence

Every kind of expression has a value from outside of the fence, as long as its parts do.
-/
namespace LoadHook.Script.Fence

variable {F : Fence} {n : Nat} {m : Machine} (hm : F.Trusts m) {ctx : Context}
  (hctx : F.FreeContext ctx)
include hm hctx

/-- The items of a list are free, where there are any. -/
theorem holds_items (items : List Item) :
    F.Holds n F.FreeItems (m.items ctx items) := by
  induction items with
  | nil => exact .pure nofun
  | cons item rest ih =>
    cases item with
    | hole => exact ih.map fun vs hvs => freeItems_cons.mpr ⟨freeValue?_none, hvs⟩
    | one e =>
      exact (hm.expr e hctx).bind fun v hv =>
        ih.map fun vs hvs => freeItems_cons.mpr ⟨freeValue?_some.mpr hv, hvs⟩
    | spread e =>
      exact (hm.expr e hctx).bind fun v hv => (holds_elements hm hv).bind fun us hus =>
        ih.map fun vs hvs => freeItems_append.mpr ⟨freeItems_map_some.mpr hus, hvs⟩

theorem holds_arguments (args : List Item) :
    F.Holds n F.FreeValues (m.arguments ctx args) := by
  refine (holds_items hm hctx args).map fun vs hvs v hv => ?_
  obtain ⟨u, hu, rfl⟩ := List.mem_map.mp hv
  exact (hvs u hu).getD

theorem holds_template (texts : List Text.Utf16) (parts : List Item) :
    F.Holds n (fun _ => True) (m.template ctx texts parts) := by
  induction parts generalizing texts with
  | nil => cases texts <;> exact .pure trivial
  | cons part rest ih =>
    cases texts with
    | nil => exact .pure trivial
    | cons t ts =>
      cases part with
      | one e =>
        exact (hm.expr e hctx).bind fun _ hv => (holds_toText hm _ hv).bind fun _ _ =>
          (ih ts).map fun _ _ => trivial
      | _ => exact .pure trivial

/-! ## Objects -/

theorem holds_addMember {r : Ref} (hr : F.Free r) (member : Member) :
    F.Holds n (fun _ => True) (m.addMember ctx r member) := by
  cases member with
  | field static name e =>
    refine (hm.expr name hctx).bind fun _ hname => (holds_toKey hm _ hname).bind fun k _ => ?_
    exact (hm.expr e hctx).bind fun _ hv =>
      (holds_define hr k (cleanDescriptor_plain hv)).bind fun _ _ => .pure trivial
  | method static name kind f =>
    exact (hm.expr name hctx).bind fun _ hname => (holds_toKey hm _ hname).bind fun k _ =>
      holds_defineMethod hctx hr true k kind f
  | proto e =>
    refine (hm.expr e hctx).bind fun v hv => ?_
    cases v with
    | obj p => exact .change fun h hs => hs.withProto hr (freeRef?_some.mpr hv)
    | null => exact .change fun h hs => hs.withProto hr freeRef?_none
    | _ => exact .pure trivial
  | spread e =>
    refine (hm.expr e hctx).bind fun v hv => (holds_ownEnumerable hm hv _).bind fun ps hps => ?_
    refine .change fun h hs => ?_
    induction ps generalizing h with
    | nil => exact hs
    | cons p rest ih =>
      obtain ⟨hp, hrest⟩ := List.forall_mem_cons.mp hps
      exact ih hrest _ (hs.define hr p.1 (cleanDescriptor_plain hp))

theorem holds_objectValue (members : List Member) :
    F.Holds n F.FreeValue (m.objectValue ctx members) := by
  refine .bind (Q := F.Free) (.update fun h hs => ⟨hs.free_new, hs.addPlain ?_⟩) fun r hr => ?_
  · exact freeRef?_some.mpr (hs.realm ctx.realm).objectProto
  · exact (Holds.each fun member _ => holds_addMember hm hctx hr member).bind fun _ _ => .pure hr

/-! ## Calls -/

theorem holds_calleeOf (e : Expr) :
    F.Holds n (fun p => F.FreeValue p.1 ∧ F.FreeValue p.2) (m.calleeOf ctx e) := by
  unfold Machine.calleeOf
  split
  · exact (hm.expr _ hctx).bind fun _ hbase => (holds_get hm _ hbase _).map fun _ hf => ⟨hbase, hf⟩
  · refine (hm.expr _ hctx).bind fun _ hbase => (hm.expr _ hctx).bind fun _ hi => ?_
    exact (holds_toKey hm _ hi).bind fun _ _ =>
      (holds_get hm _ hbase _).map fun _ hf => ⟨hbase, hf⟩
  · refine (holds_reference hm hctx _).bind fun _ hplace =>
      (holds_receiver hctx).bind fun _ hthis => ?_
    exact (holds_load hm hctx hplace).map fun _ hf => ⟨hthis, hf⟩
  · exact (hm.expr _ hctx).map fun _ hf => ⟨trivial, hf⟩

theorem holds_callee (e : Expr) :
    F.Holds n (fun p => F.FreeValue p.1 ∧ F.FreeValue p.2) (m.callee ctx e) := by
  unfold Machine.callee
  split
  · exact (holds_calleeOf hm hctx _).bind fun _ hp => .ite (.pure hp) (.stop trivial)
  · exact holds_calleeOf hm hctx e

theorem holds_constructValue (f : Expr) (args : List Item) :
    F.Holds n F.FreeValue (m.constructValue ctx f args) := by
  refine (hm.expr f hctx).bind fun f hf => (holds_arguments hm hctx args).bind fun vs hvs => ?_
  cases f with
  | obj r => exact .read_bind fun h _ => .ite (hm.construct _ hf hvs hf) (holds_typeError _ _)
  | _ => exact holds_typeError _ _

/-! ## Operators -/

theorem holds_deletePlace (e : Expr) : F.Holds n (fun _ => True) (m.deletePlace ctx e) := by
  unfold Machine.deletePlace
  split
  case h_1 => exact holds_deleteName hctx _
  case h_4 => exact (hm.expr _ hctx).bind fun _ _ => .pure trivial
  all_goals
    refine (holds_reference hm hctx e).bind fun place hplace => ?_
    split
    · refine (holds_toObject _ hplace).bind fun r hr => (holds_delete hr _).bind fun _ _ => ?_
      exact .guard (holds_typeError _ _) (.pure trivial)
    · exact .pure trivial

theorem holds_updatePlace (increment before : Bool) (e : Expr) :
    F.Holds n F.FreeValue (m.updatePlace ctx increment before e) := by
  refine (holds_reference hm hctx e).bind fun place hplace => ?_
  refine (holds_load hm hctx hplace).bind fun _ hold =>
    (holds_toNumber hm _ hold).bind fun _ _ => ?_
  exact (holds_store hm hctx hplace freeValue_num).bind fun _ _ => .pure trivial

theorem holds_assignPattern (target : Pattern) (e : Expr) :
    F.Holds n F.FreeValue (m.assignPattern ctx target e) := by
  unfold Machine.assignPattern
  split
  · refine (holds_reference hm hctx _).bind fun place hplace => (hm.expr e hctx).bind fun v hv => ?_
    exact (holds_store hm hctx hplace hv).bind fun _ _ => .pure hv
  · exact (hm.expr e hctx).bind fun v hv => (hm.bind _ _ hctx hv).bind fun _ _ => .pure hv

/-- The value of an expression comes from outside of the fence. -/
theorem holds_evaluate (e : Expr) : F.Holds n F.FreeValue (m.evaluate ctx e) := by
  have expr {n : Nat} (e : Expr) : F.Holds n F.FreeValue (m.expr ctx e) := hm.expr e hctx
  have reference {n : Nat} (e : Expr) : F.Holds n F.FreeReference (m.reference ctx e) :=
    holds_reference hm hctx e
  cases e with
  | null | bool | num | str => exact .pure trivial
  | template texts parts => exact (holds_template hm hctx texts parts).map fun _ _ => trivial
  | this => exact holds_receiver hctx
  | newTarget =>
    exact .read fun h hs => (hs.scope _ (hs.receiverScope hctx.scope)).newTarget
  | name k => exact holds_name hm hctx k
  | array items =>
    exact (holds_items hm hctx items).bind fun vs hvs => (holds_addArray _ hvs).map fun _ hr => hr
  | object members => exact holds_objectValue hm hctx members
  | function named f =>
    exact (holds_makeFunction hctx named freeRef?_none f).map fun _ hr => hr
  | «class» c => exact holds_classValue hm hctx c
  | unary op e =>
    cases op with
    | typeOf =>
      unfold Machine.evaluate
      dsimp only
      split
      · refine .read_bind fun h _ => (holds_name? hm hctx _).bind fun _ _ => .pure trivial
      · exact (expr _).bind fun _ hv => holds_unary hm _ _ hv
    | _ => exact (expr e).bind fun _ hv => holds_unary hm _ _ hv
  | delete e => exact (holds_deletePlace hm hctx e).map fun _ _ => trivial
  | update increment before place => exact holds_updatePlace hm hctx increment before place
  | binary op a b =>
    exact (expr a).bind fun _ ha => (expr b).bind fun _ hb => holds_binary hm _ ha hb op
  | logical op a b => exact (expr a).bind fun _ ha => .ite (.pure ha) (expr b)
  | assign target e => exact holds_assignPattern hm hctx target e
  | assignWith op place e =>
    refine (reference place).bind fun _ hplace => (holds_load hm hctx hplace).bind fun _ hold => ?_
    refine (expr e).bind fun _ hv => (holds_binary hm _ hold hv op).bind fun _ hnew => ?_
    exact (holds_store hm hctx hplace hnew).bind fun _ _ => .pure hnew
  | assignLogical op place e =>
    refine (reference place).bind fun _ hplace => (holds_load hm hctx hplace).bind fun _ hold => ?_
    refine .ite (.pure hold) ((expr e).bind fun _ hnew => ?_)
    exact (holds_store hm hctx hplace hnew).bind fun _ _ => .pure hnew
  | cond test yes no => exact (expr test).bind fun _ _ => .ite (expr yes) (expr no)
  | sequence a b => exact (expr a).bind fun _ _ => expr b
  | member | index | superMember =>
    exact (reference _).bind fun _ hplace => holds_load hm hctx hplace
  | call f args =>
    exact (holds_callee hm hctx f).bind fun _ hp => (holds_arguments hm hctx args).bind fun _ hvs =>
      holds_invoke hm _ hp.2 hp.1 hvs
  | construct f args => exact holds_constructValue hm hctx f args
  | superCall args =>
    exact (holds_arguments hm hctx args).bind fun _ hvs => holds_callParent hm hctx hvs
  | chain e =>
    refine (expr e).outcome.bind fun r hr => ?_
    split
    · exact .pure trivial
    · exact .ofResult hr
  | optional e => exact (expr e).bind fun _ hv => .ite (.pure hv) (.stop trivial)
  | group e => exact expr e

end LoadHook.Script.Fence
