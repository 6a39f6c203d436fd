import LoadHook.Proofs.Fence.BuiltIn.Object
import LoadHook.Script.BuiltIn.Json

/-!
# JSON text outside of a fence

Objects that are read from JSON text are new, and what is written of a value is data without a
heap. The functions on JSON text hold every fence.
-/
namespace LoadHook.Script.Fence

variable {F : Fence} {n : Nat} {m : Machine} {realm : RealmRef} {r : Ref} {k : Key}
  {v holder : Value} {args : List Value}

/-! ## Reading -/

/-- The members of a new object, the last of each name, are free if all are. -/
theorem cleanProps_ofMembers {members : List (Key × Value)}
    (hmembers : ∀ e ∈ members, F.FreeValue e.2) {props : List (Key × Property)}
    (hprops : F.CleanProps props) :
    F.CleanProps (members.foldl (fun all p => putKey p.1 (.plain p.2) all) props) := by
  induction members generalizing props with
  | nil => exact hprops
  | cons e rest ih =>
    obtain ⟨he, hrest⟩ := List.forall_mem_cons.mp hmembers
    exact ih hrest (hprops.putKey he)

mutual

/-- The value of data is made of new objects. -/
theorem Sealed.toValue {h : Heap} (d : Document) (hs : F.Sealed n h) :
    F.FreeValue (d.toValue realm h).1 ∧ F.Sealed n (d.toValue realm h).2 := by
  cases d with
  | null | bool b | num x | str s => exact ⟨trivial, hs⟩
  | arr items =>
    obtain ⟨hvs, hs⟩ := hs.itemValues items
    rw [Document.toValue]
    exact ⟨hs.free_new, hs.addArray (hs.realm realm).arrayProto (freeItems_map_some.mpr hvs)⟩
  | obj members =>
    obtain ⟨hps, hs⟩ := hs.memberValues members
    rw [Document.toValue]
    exact ⟨hs.free_new, hs.addObject ⟨trivial, freeRef?_some.mpr (hs.realm realm).objectProto,
      cleanProps_ofMembers hps cleanProps_nil⟩⟩

theorem Sealed.itemValues {h : Heap} (items : List Document) (hs : F.Sealed n h) :
    F.FreeValues (Document.itemValues realm items h).1 ∧
      F.Sealed n (Document.itemValues realm items h).2 := by
  cases items with
  | nil => exact ⟨freeValues_nil, hs⟩
  | cons d rest =>
    obtain ⟨hv, hs⟩ := hs.toValue d
    obtain ⟨hvs, hs⟩ := hs.itemValues rest
    rw [Document.itemValues]
    exact ⟨freeValues_cons.mpr ⟨hv, hvs⟩, hs⟩

theorem Sealed.memberValues {h : Heap} (members : List (Key × Document)) (hs : F.Sealed n h) :
    (∀ e ∈ (Document.memberValues realm members h).1, F.FreeValue e.2) ∧
      F.Sealed n (Document.memberValues realm members h).2 := by
  cases members with
  | nil => exact ⟨nofun, hs⟩
  | cons e rest =>
    obtain ⟨hv, hs⟩ := hs.toValue e.2
    obtain ⟨hps, hs⟩ := hs.memberValues rest
    rw [Document.memberValues]
    exact ⟨List.forall_mem_cons.mpr ⟨hv, hps⟩, hs⟩

end

theorem holds_parseJson (us : Text.Utf16) :
    F.Holds n F.FreeValue (BuiltIn.parseJson realm us) := by
  unfold BuiltIn.parseJson
  split
  · exact .update fun h hs => hs.toValue _
  · exact holds_raise realm _ _

/-! ## Writing -/

section Writing

variable (hm : F.Trusts m)
include hm

theorem holds_unwrap (hv : F.FreeValue v) : F.Holds n F.FreeValue (BuiltIn.unwrap m realm v) := by
  cases v with
  | obj r =>
    refine .read_bind fun h hs => ?_
    split
    · exact (holds_toNumber hm realm hv).bind fun _ _ => .pure trivial
    · exact (holds_toText hm realm hv).bind fun _ _ => .pure trivial
    · exact .pure trivial
    · exact .pure hv
  | _ => exact .pure hv

theorem holds_shown {replacer : Option Value} (hreplacer : F.FreeValue? replacer)
    (hholder : F.FreeValue holder) (k : Key) (hv : F.FreeValue v) :
    F.Holds n F.FreeValue (BuiltIn.shown m realm replacer holder k v) := by
  unfold BuiltIn.shown
  extract_lets finish rest
  have hfinish {n : Nat} {v : Value} (hv : F.FreeValue v) : F.Holds n F.FreeValue (finish v) :=
    holds_unwrap hm hv
  have hrest {n : Nat} {v : Value} (hv : F.FreeValue v) : F.Holds n F.FreeValue (rest v) := by
    cases replacer with
    | none => exact .pure_bind (hfinish hv)
    | some f =>
      exact (hm.call realm (freeValue?_some.mp hreplacer) hholder (by simpa using hv)).bind
        fun _ hv => hfinish hv
  cases v with
  | obj r =>
    refine (holds_getRef hm realm hv _).bind fun f hf => .read_bind fun h hs => .ite ?_ ?_
    · exact (hm.call realm hf hv (by simp)).bind fun _ hv => hrest hv
    · exact .pure_bind (hrest hv)
  | _ => exact .pure_bind (hrest hv)

theorem holds_snapshot {selection : BuiltIn.Selection}
    (hselection : F.FreeValue? selection.replacer) (fuel : Nat) (above : List Ref)
    (hholder : F.FreeValue holder) (k : Key) (hv : F.FreeValue v) :
    F.Holds n (fun _ => True) (BuiltIn.snapshot m realm selection fuel above holder k v) := by
  induction fuel generalizing n above holder k v with
  | zero => exact .stop trivial
  | succ fuel ih =>
    refine (holds_shown hm hselection hholder k hv).bind fun v hv => ?_
    split
    iterate 5 exact .pure trivial
    next r =>
    refine .read_bind fun h hs => .ite (.pure trivial) (.ite (holds_typeError realm _) (.ite ?_ ?_))
    · refine (holds_lengthOf hm realm hv).bind fun length _ => ?_
      refine (Holds.collect (R := fun _ => True) fun i _ => ?_).bind fun _ _ => .pure trivial
      exact (holds_getRef hm realm hv _).bind fun _ hx => ih _ (freeValue_obj.mpr hv) _ hx
    · refine (Holds.collect (R := fun _ => True) fun k _ => ?_).bind fun _ _ => .pure trivial
      exact (holds_getRef hm realm hv k).bind fun _ hx =>
        (ih _ (freeValue_obj.mpr hv) k hx).bind fun _ _ => .pure trivial

theorem holds_documentOf (hv : F.FreeValue v) :
    F.Holds n (fun _ => True) (BuiltIn.documentOf m realm v) :=
  holds_snapshot hm freeValue?_none _ _ freeValue_undefined _ hv

theorem holds_listedKey (hv : F.FreeValue v) :
    F.Holds n (fun _ => True) (BuiltIn.listedKey m realm v) := by
  cases v with
  | obj r =>
    refine .read_bind fun h hs => ?_
    split
    · exact (holds_toText hm realm hv).bind fun _ _ => .pure trivial
    · exact (holds_toText hm realm hv).bind fun _ _ => .pure trivial
    · exact .pure trivial
  | _ => exact .pure trivial

theorem holds_selectionOf (hv : F.FreeValue v) :
    F.Holds n (fun s => F.FreeValue? s.replacer) (BuiltIn.selectionOf m realm v) := by
  cases v with
  | obj r =>
    refine .read_bind fun h hs =>
      .ite (.pure (freeValue?_some.mpr hv)) (.ite ?_ (.pure freeValue?_none))
    refine (holds_elements hm hv).bind fun vs hvs => ?_
    exact (Holds.collect fun v hv => holds_listedKey hm (hvs v hv)).bind fun _ _ =>
      .pure freeValue?_none
  | _ => exact .pure freeValue?_none

theorem holds_gapOf (hv : F.FreeValue v) :
    F.Holds n (fun _ => True) (BuiltIn.gapOf m realm v) := by
  refine (holds_unwrap hm hv).bind fun v _ => ?_
  split <;> exact .pure trivial

end Writing

theorem holds_jsonFunctions : ∀ b ∈ BuiltIn.jsonFunctions, F.HoldsBuiltIn b := by
  simp -zeta only [BuiltIn.jsonFunctions, List.forall_mem_cons, List.not_mem_nil, false_implies,
    implies_true, and_true]
  refine ⟨?parse, ?stringify⟩
  all_goals
    intro n m realm this args hm _ hargs
    have harg := hargs.argument
  case parse =>
    exact (holds_toText hm realm (harg 0)).bind fun us _ => holds_parseJson us
  case stringify =>
    refine (holds_selectionOf hm (harg 1)).bind fun selection hselection => ?_
    refine (holds_gapOf hm (harg 2)).bind fun gap _ => ?_
    refine (holds_newObject realm (by simpa using harg 0)).bind fun holder hholder => ?_
    refine (holds_snapshot hm hselection _ _ hholder _ (harg 0)).bind fun d _ => ?_
    cases d with
    | some d => exact .pure trivial
    | none => exact .pure trivial

end LoadHook.Script.Fence
