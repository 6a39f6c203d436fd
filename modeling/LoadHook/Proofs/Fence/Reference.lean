import LoadHook.Proofs.Fence.Convert

/-!
# Names, places and patterns outside of a fence

Code whose scope lies outside of a fence finds only names and places outside of it, and assigns to
no others.
-/
namespace LoadHook.Script.Fence

variable {F : Fence} {n : Nat} {m : Machine} (hm : F.Trusts m) {ctx : Context}
  (hctx : F.FreeContext ctx) {realm : RealmRef} {v : Value}

/-! ## Names -/

include hctx in
/-- A scope inside the scope of the code lies outside of the fence too. -/
theorem holds_inner : F.Holds n F.FreeContext (Machine.inner ctx) :=
  (Holds.update fun _ hs => ⟨hs.freeScope_new, hs.addInner hctx.scope⟩).map
    fun _ hscope => hctx.withScope hscope

include hctx in
theorem holds_receiver : F.Holds n F.FreeValue (Machine.receiver ctx) := by
  refine .read_bind fun h hs => ?_
  have hfree := (hs.scope _ (hs.receiverScope hctx.scope)).receiver
  split
  · next v hv =>
    rw [id_eq] at hv
    rw [hv] at hfree
    exact .pure hfree
  · exact holds_raise _ _ _
  · exact .pure trivial

include hctx in
theorem holds_deleteName (k : Key) : F.Holds n (fun _ => True) (Machine.deleteName ctx k) := by
  refine .read_bind fun h hs => ?_
  have hplace := hs.place hctx.scope k
  split
  · exact .pure trivial
  · next r hr =>
    rw [hr] at hplace
    exact holds_delete hplace k
  · exact .pure trivial

/-- A scope may be changed by giving a name of it a value. -/
theorem holds_setSlot {s : ScopeRef} (hfree : F.FreeScope s) (k : Key) (hv : F.FreeValue v) :
    F.Holds n (fun _ => True) (Eval.change (·.setSlot s k v)) :=
  .change fun _ hs => hs.setSlot hfree k hv

theorem holds_announce {s : ScopeRef} (hfree : F.FreeScope s) (names : List (Key × Bool)) :
    F.Holds n (fun _ => True) (Eval.change (·.announce s names)) :=
  .change fun _ hs => hs.announce hfree names

section Names

include hm hctx

theorem holds_name? (k : Key) : F.Holds n F.FreeValue? (m.name? ctx k) := by
  refine .read_bind fun h hs => ?_
  have hplace := hs.place hctx.scope k
  split
  · next v _ hk =>
    rw [hk] at hplace
    exact .pure hplace.2
  · exact holds_raise _ _ _
  · next r hk =>
    rw [hk] at hplace
    exact (holds_getRef hm _ hplace k).map fun _ hv => freeValue?_some.mpr hv
  · exact .pure freeValue?_none

theorem holds_name (k : Key) : F.Holds n F.FreeValue (m.name ctx k) := by
  refine (holds_name? hm hctx k).bind fun v hv => ?_
  cases v with
  | some v => exact .pure (freeValue?_some.mp hv)
  | none => exact holds_raise _ _ _

theorem holds_assignName (k : Key) (hv : F.FreeValue v) :
    F.Holds n (fun _ => True) (m.assignName ctx k v) := by
  refine .read_bind fun h hs => ?_
  have hplace := hs.place hctx.scope k
  split
  · exact holds_raise _ _ _
  · next s _ hk =>
    rw [hk] at hplace
    exact holds_setSlot hplace.1 k hv
  · exact .ite (holds_typeError _ _) (.pure trivial)
  · exact holds_typeError _ _
  · next r hk =>
    rw [hk] at hplace
    exact holds_assign hm _ _ (freeValue_obj.mpr hplace) k hv
  · refine .ite (holds_raise _ _ _) (.read_bind fun h hs => ?_)
    exact holds_assign hm _ _ (freeValue_obj.mpr (hs.global _ hctx.realm)) k hv

end Names

/-! ## Elements of lists -/

section Elements

include hm

theorem holds_element? (hv : F.FreeValue v) (i : Nat) :
    F.Holds n F.FreeValue? (m.element? realm v i) := by
  have character (s : Text.Utf16) :
      F.FreeValue? (((Machine.characters s)[i]?).map Value.str) := by
    intro u hu
    obtain ⟨c, -, rfl⟩ := Option.map_eq_some_iff.mp hu
    trivial
  cases v with
  | str s => exact .pure (character s)
  | obj r =>
    refine .read_bind fun h _ => ?_
    split
    case h_3 => exact .pure (character _)
    case h_4 => exact holds_typeError realm _
    all_goals
      exact (holds_lengthOf hm realm hv).bind fun _ _ =>
        .ite ((holds_getRef hm realm hv _).map fun _ hv => freeValue?_some.mpr hv)
          (.pure freeValue?_none)
  | _ => exact holds_typeError realm _

theorem holds_elements (hv : F.FreeValue v) :
    F.Holds n F.FreeValues (m.elements realm v) := by
  refine .loop (P := fun read => F.FreeValues read.1) freeValues_nil (fun read hread => ?_) _
  refine (holds_element? hm hv _).bind fun x hx => ?_
  cases x with
  | some x => exact .pure (freeValues_cons.mpr ⟨freeValue?_some.mp hx, hread⟩)
  | none => exact .pure fun v hv => hread v (List.mem_reverse.mp hv)

theorem holds_ownEnumerable (hv : F.FreeValue v) (except : List Key) :
    F.Holds n (fun props => ∀ e ∈ props, F.FreeValue e.2) (m.ownEnumerable realm v except) := by
  refine .ite (.pure nofun) ((holds_toObject realm hv).bind fun r hr => .read_bind fun h hs => ?_)
  exact .collect fun k _ => (holds_getRef hm realm hr k).map fun _ hv => hv

end Elements

/-! ## Places -/

/-- A place lies outside of the fence. -/
def FreeReference (F : Fence) : Reference → Prop
  | .name _ => True
  | .property base _ => F.FreeValue base
  | .above this start _ => F.FreeValue this ∧ F.FreeRef? start

include hctx

theorem holds_aboveHome : F.Holds n F.FreeRef? (Machine.aboveHome ctx) := by
  refine .read fun h hs r hr => ?_
  obtain ⟨callee, hcallee, hr⟩ := Option.bind_eq_some_iff.mp hr
  have hkind :=
    (hs.object callee ((hs.scope _ (hs.receiverScope hctx.scope)).callee _ hcallee)).kind
  split at hr
  · next c hc =>
    rw [hc] at hkind
    obtain ⟨home, hhome, hr⟩ := Option.bind_eq_some_iff.mp hr
    exact (hs.object home (hkind.home home hhome)).proto r hr
  · cases hr

include hm

theorem holds_reference (e : Expr) : F.Holds n F.FreeReference (m.reference ctx e) := by
  unfold Machine.reference
  split
  · exact .pure trivial
  · exact (hm.expr _ hctx).map fun _ hv => hv
  · exact (hm.expr _ hctx).bind fun _ hbase => (hm.expr _ hctx).bind fun _ hi =>
      (holds_toKey hm _ hi).map fun _ _ => hbase
  · refine (holds_receiver hctx).bind fun _ hthis => (holds_aboveHome hctx).bind fun _ hstart => ?_
    exact (hm.expr _ hctx).bind fun _ hk => (holds_toKey hm _ hk).map fun _ _ => ⟨hthis, hstart⟩
  · exact holds_raise _ _ _

theorem holds_load {place : Reference} (hplace : F.FreeReference place) :
    F.Holds n F.FreeValue (m.load ctx place) := by
  cases place with
  | name k => exact holds_name hm hctx k
  | property base k => exact holds_get hm _ hplace k
  | above this start k =>
    cases start with
    | some start =>
      exact .read_bind fun h hs =>
        holds_valueOf hm _ hplace.1 (hs.find (hplace.2 start rfl) k)
    | none => exact holds_get hm _ freeValue_undefined k

theorem holds_store {place : Reference} (hplace : F.FreeReference place) (hv : F.FreeValue v) :
    F.Holds n (fun _ => True) (m.store ctx place v) := by
  cases place with
  | name k => exact holds_assignName hm hctx k hv
  | property base k => exact holds_assign hm _ _ hplace k hv
  | above this start k => exact holds_assign hm _ _ hplace.1 k hv

/-! ## Patterns -/

theorem holds_bindTarget (mode : Binding.Mode) (target : Target) (hv : F.FreeValue v) :
    F.Holds n (fun _ => True) (m.bindTarget ctx mode target v) := by
  unfold Machine.bindTarget
  split
  · exact .pure trivial
  · exact hm.bind mode _ hctx hv
  · split
    · exact (hm.expr _ hctx).bind fun _ hv => hm.bind mode _ hctx hv
    · exact hm.bind mode _ hctx hv

theorem holds_bindTargets (mode : Binding.Mode) (targets : List Target) {vs : List Value}
    (hvs : F.FreeValues vs) : F.Holds n (fun _ => True) (m.bindTargets ctx mode targets vs) := by
  induction targets generalizing vs with
  | nil => exact .pure trivial
  | cons t ts ih =>
    have hhead : F.FreeValue (vs.headD .undefined) := by
      cases vs with
      | nil => trivial
      | cons v vs => exact (freeValues_cons.mp hvs).1
    exact (holds_bindTarget hm hctx mode t hhead).bind fun _ _ => ih hvs.tail

theorem holds_bindFields (mode : Binding.Mode) (hv : F.FreeValue v) (read : List Key)
    (fields : List Field) : F.Holds n (fun _ => True) (m.bindFields ctx mode v read fields) := by
  induction fields generalizing read with
  | nil => exact .pure trivial
  | cons field rest ih =>
    obtain ⟨name, target⟩ := field
    refine (hm.expr _ hctx).bind fun _ hk => (holds_toKey hm _ hk).bind fun k _ => ?_
    exact (holds_get hm _ hv k).bind fun _ hx =>
      (holds_bindTarget hm hctx mode target hx).bind fun _ _ => ih _

/-- Taking a value apart assigns outside of the fence only. -/
theorem holds_bindPattern (mode : Binding.Mode) (p : Pattern) (hv : F.FreeValue v) :
    F.Holds n (fun _ => True) (m.bindPattern ctx mode p v) := by
  unfold Machine.bindPattern
  split
  · split
    · exact holds_setSlot hctx.scope _ hv
    · exact holds_assignName hm hctx _ hv
  · exact (holds_reference hm hctx _).bind fun _ hplace => holds_store hm hctx hplace hv
  · refine (holds_elements hm hv).bind fun vs hvs => ?_
    refine (holds_bindTargets hm hctx mode _ hvs).bind fun _ _ => ?_
    split
    · exact (holds_newArray _ (hvs.drop _)).bind fun _ hrest => hm.bind mode _ hctx hrest
    · exact .pure trivial
  · refine .guard (holds_typeError _ _) ((holds_bindFields hm hctx mode hv _ _).bind fun _ _ => ?_)
    split
    · exact (holds_ownEnumerable hm hv _).bind fun _ hprops =>
        (holds_newObject _ hprops).bind fun _ hrest => hm.bind mode _ hctx hrest
    · exact .pure trivial

end LoadHook.Script.Fence
