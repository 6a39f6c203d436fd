import LoadHook.Proofs.Fence.BuiltIn.Object
import LoadHook.Script.BuiltIn.Array

/-!
# Functions on arrays, outside of a fence

The methods of arrays put elements of lists, and what a function makes of them, into other lists. So
they hold every fence.
-/
namespace LoadHook.Script.Fence

variable {F : Fence} {n : Nat} {m : Machine} (hm : F.Trusts m) {realm : RealmRef} {r : Ref}
  {f v : Value} {args : List Value} {vs : List (Option Value)}

/-! ## Elements -/

theorem holds_arrayOf (hvs : F.FreeItems vs) :
    F.Holds n F.FreeValue (BuiltIn.arrayOf realm vs) :=
  (holds_addArray realm hvs).map fun _ hr => hr

include hm

theorem holds_setLength (hr : F.Free r) (length : Nat) :
    F.Holds n (fun _ => True) (BuiltIn.setLength m realm r length) :=
  holds_assign hm realm true (freeValue_obj.mpr hr) _ freeValue_nat

theorem holds_elementAt? (hr : F.Free r) (i : Nat) :
    F.Holds n F.FreeValue? (BuiltIn.elementAt? m realm r i) :=
  .read_bind fun _ _ =>
    .ite ((holds_getRef hm realm hr _).map fun _ hv => freeValue?_some.mpr hv)
      (.pure freeValue?_none)

theorem holds_putElement (hr : F.Free r) (i : Nat) {v : Option Value} (hv : F.FreeValue? v) :
    F.Holds n (fun _ => True) (BuiltIn.putElement m realm r i v) := by
  cases v with
  | some v => exact holds_assign hm realm true (freeValue_obj.mpr hr) _ (freeValue?_some.mp hv)
  | none => exact (holds_delete hr _).bind fun _ _ => .ite (holds_typeError realm _) (.pure trivial)

theorem holds_listOf (hv : F.FreeValue v) :
    F.Holds n (fun p => F.Free p.1) (BuiltIn.listOf m realm v) :=
  (holds_toObject realm hv).bind fun _ hr =>
    (holds_lengthOf hm realm (freeValue_obj.mpr hr)).map fun _ _ => hr

theorem holds_slice (hr : F.Free r) (start stop : Nat) :
    F.Holds n F.FreeItems (BuiltIn.slice m realm r start stop) :=
  .collect fun _ _ => holds_elementAt? hm hr _

theorem holds_putAll (hr : F.Free r) (i : Nat) (hvs : F.FreeItems vs) :
    F.Holds n (fun _ => True) (BuiltIn.putAll m realm r i vs) := by
  induction vs generalizing i with
  | nil => exact .pure trivial
  | cons v rest ih =>
    obtain ⟨hv, hrest⟩ := freeItems_cons.mp hvs
    exact (holds_putElement hm hr i hv).bind fun _ _ => ih _ hrest

theorem holds_replaceAll (hr : F.Free r) (hvs : F.FreeItems vs) :
    F.Holds n (fun _ => True) (BuiltIn.replaceAll m realm r vs) :=
  (holds_putAll hm hr 0 hvs).bind fun _ _ => holds_setLength hm hr _

/-! ## Functions that call a function for the elements -/

omit hm in
/-- An element, its index and the list are free. -/
theorem freeValues_visited (hv : F.FreeValue v) (i : Nat) (hr : F.Free r) :
    F.FreeValues [v, .nat i, .obj r] := by simp [hv, hr]

theorem holds_visit {α : Type} (hv : F.FreeValue v) (hargs : F.FreeValues args)
    {f : Value → Nat → Value → Eval (Option α)}
    (hf : ∀ {n} v i a, F.Holds n (fun _ => True) (f v i a)) :
    F.Holds n (fun _ => True) (BuiltIn.visit m realm v args f) := by
  refine (holds_listOf hm hv).bind fun p hr => ?_
  obtain ⟨r, length⟩ := p
  refine .read_bind fun _ _ => .guard (holds_typeError realm _) ?_
  refine .loop (P := fun _ => True) trivial (fun i _ => .ite ?_ ?_) _
  · refine (holds_elementAt? hm hr i).bind fun x hx => ?_
    cases x with
    | none => exact .pure trivial
    | some x =>
      have hx := freeValue?_some.mp hx
      refine (hm.call realm (hargs.argument 0) (hargs.argument 1)
        (freeValues_visited hx i hr)).bind fun a _ => (hf x i a).bind fun o _ => ?_
      cases o <;> exact .pure trivial
  · exact .pure trivial

theorem holds_joinWith (separator : Key) (hr : F.Free r) (length : Nat) :
    F.Holds n F.FreeValue (BuiltIn.joinWith m realm separator r length) := by
  refine (Holds.collect (R := fun _ => True) fun i _ => ?_).map fun _ _ => trivial
  exact (holds_getRef hm realm hr _).bind fun _ hv =>
    .ite (holds_toText hm realm hv) (.pure trivial)

theorem holds_foldElements (hf : F.FreeValue f) (hr : F.Free r) (hv : F.FreeValue v)
    (indices : List Nat) :
    F.Holds n F.FreeValue (BuiltIn.foldElements m realm f r v indices) := by
  induction indices generalizing v with
  | nil => exact .pure hv
  | cons i rest ih =>
    refine (holds_elementAt? hm hr i).bind fun x hx => ?_
    cases x with
    | none => exact ih hv
    | some x =>
      have hvalues : F.FreeValues [v, x, .nat i, .obj r] :=
        freeValues_cons.mpr ⟨hv, freeValues_visited (freeValue?_some.mp hx) i hr⟩
      exact (hm.call realm hf freeValue_undefined hvalues).bind fun _ hv => ih hv

theorem holds_reduceFrom (hargs : F.FreeValues args) (hr : F.Free r) (indices : List Nat) :
    F.Holds n F.FreeValue (BuiltIn.reduceFrom m realm args r indices) := by
  refine .read_bind fun _ _ => .guard (holds_typeError realm _) (.read_bind fun h _ => ?_)
  have hf := hargs.argument 0
  split
  · exact holds_foldElements hm hf hr (hargs _ (by simp)) indices
  · exact (holds_getRef hm realm hr _).bind fun _ hv => holds_foldElements hm hf hr hv _
  · exact holds_typeError realm _

/-! ## Sorting -/

theorem holds_inOrder {a b : Value} (hf : F.FreeValue f) (ha : F.FreeValue a)
    (hb : F.FreeValue b) : F.Holds n (fun _ => True) (BuiltIn.inOrder m realm f a b) := by
  unfold BuiltIn.inOrder
  split
  · exact .pure trivial
  · exact .pure trivial
  · split
    · exact (holds_toText hm realm hb).bind fun _ _ =>
        (holds_toText hm realm ha).map fun _ _ => trivial
    · refine (hm.call realm hf freeValue_undefined (by simp [ha, hb])).bind fun x hx => ?_
      exact (holds_toNumber hm realm hx).map fun _ _ => trivial

theorem holds_insertSorted (hf : F.FreeValue f) (hv : F.FreeValue v) {sorted : List Value}
    (hsorted : F.FreeValues sorted) :
    F.Holds n F.FreeValues (BuiltIn.insertSorted m realm f v sorted) := by
  induction sorted with
  | nil => exact .pure (freeValues_cons.mpr ⟨hv, freeValues_nil⟩)
  | cons x rest ih =>
    obtain ⟨hx, hrest⟩ := freeValues_cons.mp hsorted
    refine (holds_inOrder hm hf hx hv).bind fun _ _ => .ite ?_ ?_
    · exact (ih hrest).map fun _ h => freeValues_cons.mpr ⟨hx, h⟩
    · exact .pure (freeValues_cons.mpr ⟨hv, hsorted⟩)

theorem holds_sortValues (hf : F.FreeValue f) {sorted vs : List Value}
    (hsorted : F.FreeValues sorted) (hvs : F.FreeValues vs) :
    F.Holds n F.FreeValues (BuiltIn.sortValues m realm f sorted vs) := by
  induction vs generalizing sorted with
  | nil => exact .pure hsorted
  | cons v rest ih =>
    obtain ⟨hv, hrest⟩ := freeValues_cons.mp hvs
    exact (holds_insertSorted hm hf hv hsorted).bind fun _ h => ih h hrest

/-! ## Nested arrays -/

omit hm in
theorem FreeValues.flatten {vss : List (List Value)} (h : ∀ vs ∈ vss, F.FreeValues vs) :
    F.FreeValues vss.flatten := by
  intro v hv
  obtain ⟨vs, hvs, hv⟩ := List.mem_flatten.mp hv
  exact h vs hvs v hv

omit hm in
theorem FreeItems.flatten {vss : List (List (Option Value))} (h : ∀ vs ∈ vss, F.FreeItems vs) :
    F.FreeItems vss.flatten := by
  intro v hv
  obtain ⟨vs, hvs, hv⟩ := List.mem_flatten.mp hv
  exact h vs hvs v hv

theorem holds_flatten (depth : Nat) (hr : F.Free r) :
    F.Holds n F.FreeValues (BuiltIn.flatten m realm depth r) := by
  induction depth generalizing n r with
  | zero =>
    exact (holds_lengthOf hm realm (freeValue_obj.mpr hr)).bind fun _ _ =>
      (holds_slice hm hr _ _).map fun _ h => h.present
  | succ depth ih =>
    refine (holds_lengthOf hm realm (freeValue_obj.mpr hr)).bind fun _ _ => ?_
    refine (holds_slice hm hr _ _).bind fun vs hvs => ?_
    refine (Holds.collect fun v hv => ?_).map fun _ h => FreeValues.flatten h
    have hv : F.FreeValue v := hvs.present v hv
    have single : F.FreeValues [v] := by simpa using hv
    cases v with
    | obj x => exact .read_bind fun _ _ => .ite (ih hv) (.pure single)
    | _ => exact .pure single

theorem holds_spread (hv : F.FreeValue v) :
    F.Holds n F.FreeItems (BuiltIn.spread m realm v) := by
  have single : F.FreeItems [some v] := by simpa using hv
  cases v with
  | obj r =>
    exact .read_bind fun _ _ => .ite
      ((holds_lengthOf hm realm hv).bind fun _ _ => holds_slice hm hv _ _) (.pure single)
  | _ => exact .pure single

theorem holds_indexAmong (hr : F.Free r) (v : Value) (indices : List Nat) :
    F.Holds n F.FreeValue (BuiltIn.indexAmong m realm r v indices) :=
  (Holds.collect (R := fun _ => True) fun i _ =>
    (holds_elementAt? hm hr i).map fun _ _ => trivial).map fun _ _ => trivial

theorem holds_findElement (hargs : F.FreeValues args) (hr : F.Free r) (indices : List Nat) :
    F.Holds n (fun o => F.FreeValue? (o.map Prod.snd))
      (BuiltIn.findElement m realm args r indices) := by
  induction indices with
  | nil => exact .pure freeValue?_none
  | cons i rest ih =>
    refine (holds_getRef hm realm hr _).bind fun v hv => ?_
    refine (holds_invoke hm realm (hargs.argument 0) (hargs.argument 1)
      (freeValues_visited hv i hr)).bind fun _ _ => ?_
    exact .ite (.pure (freeValue?_some.mpr hv)) ih

/-! ## Tables -/

omit hm

theorem holds_arrayFunctions : ∀ b ∈ BuiltIn.arrayFunctions, F.HoldsBuiltIn b := by
  simp -zeta only [BuiltIn.arrayFunctions, List.forall_mem_cons, List.not_mem_nil, false_implies,
    implies_true, and_true]
  refine ⟨?isArray, ?of, ?fromList⟩
  all_goals
    intro n m realm this args hm _ hargs
    have harg := hargs.argument
    dsimp -zeta only
  case isArray =>
    split
    · exact .read_bind fun _ _ => .pure trivial
    · exact .pure trivial
  case of => exact holds_newArray realm hargs
  case fromList =>
    extract_lets source rest
    have hsource : F.FreeValue source := harg 0
    have hrest {vs : List Value} (hvs : F.FreeValues vs) : F.Holds n F.FreeValue (rest vs) := by
      have hf := harg 1
      dsimp -zeta only [rest]
      split
      · exact holds_newArray realm hvs
      · refine (Holds.collect fun p hp => ?_).bind fun _ h => holds_newArray realm h
        have hv : F.FreeValue p.1 := hvs p.1 (List.fst_mem_of_mem_zipIdx hp)
        exact holds_invoke hm realm hf (harg 2) (by simp [hv])
    clear_value source
    split
    · exact (holds_elements hm hsource).bind fun _ hvs => hrest hvs
    · refine (holds_listOf hm hsource).bind fun p hr => ?_
      exact (Holds.collect fun i _ => holds_getRef hm realm hr _).bind fun _ hvs => hrest hvs

theorem holds_arrayChanges : ∀ b ∈ BuiltIn.arrayChanges, F.HoldsBuiltIn b := by
  simp -zeta only [BuiltIn.arrayChanges, List.forall_mem_cons, List.not_mem_nil, false_implies,
    implies_true, and_true]
  refine ⟨?push, ?pop, ?shift, ?unshift, ?splice, ?reverse, ?sort, ?fill⟩
  all_goals
    intro n m realm this args hm hthis hargs
    have harg := hargs.argument
    dsimp -zeta only
    have hlist {n : Nat} : F.Holds n (fun p => F.Free p.1) (BuiltIn.listOf m realm this) :=
      holds_listOf hm hthis
  case push =>
    refine hlist.bind fun p hr => ?_
    exact (holds_putAll hm hr _ (freeItems_map_some.mpr hargs)).bind fun _ _ =>
      (holds_setLength hm hr _).bind fun _ _ => .pure trivial
  case pop =>
    refine hlist.bind fun p hr => ?_
    split
    · exact (holds_setLength hm hr _).bind fun _ _ => .pure trivial
    · refine (holds_getRef hm realm hr _).bind fun v hv => ?_
      exact (holds_putElement hm hr _ freeValue?_none).bind fun _ _ =>
        (holds_setLength hm hr _).bind fun _ _ => .pure hv
  case shift =>
    refine hlist.bind fun p hr => (holds_slice hm hr _ _).bind fun vs hvs => ?_
    cases vs with
    | nil => exact (holds_setLength hm hr _).bind fun _ _ => .pure trivial
    | cons v rest =>
      obtain ⟨hv, hrest⟩ := freeItems_cons.mp hvs
      exact (holds_putAll hm hr _ hrest).bind fun _ _ =>
        (holds_putElement hm hr _ freeValue?_none).bind fun _ _ =>
          (holds_setLength hm hr _).bind fun _ _ => .pure hv.getD
  case unshift =>
    refine hlist.bind fun p hr => (holds_slice hm hr _ _).bind fun vs hvs => ?_
    exact (holds_replaceAll hm hr (by simpa using ⟨hargs, hvs⟩)).bind fun _ _ => .pure trivial
  case splice =>
    refine hlist.bind fun p hr => (holds_indexArgument hm hargs _ _ _).bind fun start _ => ?_
    extract_lets rest
    have hrest (count : Nat) : F.Holds n F.FreeValue (rest count) := by
      refine (holds_slice hm hr _ _).bind fun vs hvs => ?_
      have hpart (i j : Nat) : F.FreeItems ((vs.drop i).take j) :=
        hvs.subset fun v hv => List.mem_of_mem_drop (List.mem_of_mem_take hv)
      refine (holds_arrayOf (hpart start count)).bind fun removed hremoved => ?_
      extract_lets kept
      have hkept : F.FreeItems kept := by
        simp only [kept, freeItems_append, freeItems_map_some]
        refine ⟨⟨?_, hargs.drop 2⟩, ?_⟩
        · exact hvs.subset fun v hv => List.mem_of_mem_take hv
        · exact hvs.subset fun v hv => List.mem_of_mem_drop hv
      refine (holds_putAll hm hr _ hkept).bind fun _ _ => ?_
      refine (Holds.each fun i _ => holds_putElement hm hr _ freeValue?_none).bind fun _ _ => ?_
      exact (holds_setLength hm hr _).bind fun _ _ => .pure hremoved
    split
    · exact .pure_bind (hrest _)
    · exact .pure_bind (hrest _)
    · exact (holds_toInteger hm realm (harg 1)).bind fun _ _ => .pure_bind (hrest _)
  case reverse =>
    refine hlist.bind fun p hr => (holds_slice hm hr _ _).bind fun vs hvs => ?_
    exact (holds_putAll hm hr _ (hvs.subset fun v hv => List.mem_reverse.mp hv)).bind fun _ _ =>
      .pure hr
  case sort =>
    extract_lets f rest
    have hf : F.FreeValue f := harg 0
    have hrest {n : Nat} : F.Holds n F.FreeValue (rest ()) := by
      refine hlist.bind fun p hr => (holds_slice hm hr _ _).bind fun vs hvs => ?_
      refine (holds_sortValues hm hf freeValues_nil hvs.present).bind fun sorted hsorted => ?_
      refine (holds_putAll hm hr _ ?_).bind fun _ _ => .pure hr
      simp only [freeItems_append, freeItems_map_some]
      exact ⟨hsorted, fun v hv => List.eq_of_mem_replicate hv ▸ freeValue?_none⟩
    clear_value rest f
    split
    · exact .pure_bind hrest
    · exact .read_bind fun _ _ => .guard (holds_typeError realm _) hrest
  case fill =>
    have hv := harg 0
    refine hlist.bind fun p hr => (holds_indexArgument hm hargs _ _ _).bind fun _ _ => ?_
    refine (holds_indexArgument hm hargs _ _ _).bind fun _ _ => ?_
    refine (holds_putAll hm hr _ fun u hu => ?_).bind fun _ _ => .pure hr
    rw [List.eq_of_mem_replicate hu]
    exact freeValue?_some.mpr hv

theorem holds_arrayVisits : ∀ b ∈ BuiltIn.arrayVisits, F.HoldsBuiltIn b := by
  simp -zeta only [BuiltIn.arrayVisits, List.forall_mem_cons, List.not_mem_nil, false_implies,
    implies_true, and_true]
  refine ⟨?forEach, ?map, ?filter, ?some, ?every, ?reduce, ?reduceRight, ?find, ?findIndex,
    ?findLast, ?findLastIndex⟩
  all_goals
    intro n m realm this args hm hthis hargs
    have harg := hargs.argument
    have hlist : F.Holds n (fun p => F.Free p.1) (BuiltIn.listOf m realm this) :=
      holds_listOf hm hthis
    dsimp -zeta only
  case forEach | some | every =>
    exact (holds_visit hm hthis hargs fun _ _ _ => .pure trivial).bind fun _ _ => .pure trivial
  case map =>
    refine hlist.bind fun p hr => .read_bind fun _ _ => .guard (holds_typeError realm _) ?_
    refine (Holds.collect fun i _ => ?_).bind fun vs hvs => holds_arrayOf hvs
    refine (holds_elementAt? hm hr i).bind fun v hv => ?_
    cases v with
    | none => exact .pure freeValue?_none
    | some v =>
      exact (hm.call realm (harg 0) (harg 1) (freeValues_visited (freeValue?_some.mp hv) i hr)).map
        fun _ hv => freeValue?_some.mpr hv
  case filter =>
    refine hlist.bind fun p hr => .read_bind fun _ _ => .guard (holds_typeError realm _) ?_
    refine (Holds.collect fun i _ => ?_).bind fun vs hvs =>
      holds_newArray realm (FreeItems.present hvs)
    refine (holds_elementAt? hm hr i).bind fun v hv => ?_
    cases v with
    | none => exact .pure freeValue?_none
    | some v =>
      refine (hm.call realm (harg 0) (harg 1)
        (freeValues_visited (freeValue?_some.mp hv) i hr)).bind fun answer _ => .pure ?_
      split
      · exact hv
      · exact freeValue?_none
  case reduce | reduceRight => exact hlist.bind fun p hr => holds_reduceFrom hm hargs hr _
  case find | findLast =>
    exact hlist.bind fun p hr => (holds_findElement hm hargs hr _).bind fun _ hv => .pure hv.getD
  case findIndex | findLastIndex =>
    refine hlist.bind fun p hr => (holds_findElement hm hargs hr _).bind fun o _ => .pure ?_
    cases o <;> trivial

theorem holds_arrayViews : ∀ b ∈ BuiltIn.arrayViews, F.HoldsBuiltIn b := by
  simp -zeta only [BuiltIn.arrayViews, List.forall_mem_cons, List.not_mem_nil, false_implies,
    implies_true, and_true]
  refine ⟨?atIndex, ?concat, ?flat, ?flatMap, ?includes, ?indexOf, ?lastIndexOf, ?join, ?slice,
    ?toString⟩
  all_goals
    intro n m realm this args hm hthis hargs
    have harg := hargs.argument
    have hlist : F.Holds n (fun p => F.Free p.1) (BuiltIn.listOf m realm this) :=
      holds_listOf hm hthis
    dsimp -zeta only
  case atIndex =>
    refine hlist.bind fun p hr => (holds_toInteger hm realm (harg 0)).bind fun _ _ => ?_
    exact .ite (holds_getRef hm realm hr _) (.pure trivial)
  case concat =>
    refine (holds_toObject realm hthis).bind fun r hr => (Holds.collect fun v hv => ?_).bind
      fun vs hvs => holds_arrayOf (FreeItems.flatten hvs)
    have hvalues : F.FreeValues (.obj r :: args) := freeValues_cons.mpr ⟨hr, hargs⟩
    exact holds_spread hm (hvalues v hv)
  case flat =>
    have hdepth := harg 0
    refine (holds_toObject realm hthis).bind fun r hr => ?_
    extract_lets rest
    have hrest (depth : Nat) : F.Holds n F.FreeValue (rest depth) :=
      (holds_flatten hm depth hr).bind fun _ hvs => holds_newArray realm hvs
    split
    · exact .pure_bind (hrest _)
    · exact (holds_toInteger hm realm hdepth).bind fun _ _ => .pure_bind (hrest _)
  case flatMap =>
    refine hlist.bind fun p hr => (Holds.collect fun i _ => ?_).bind fun vs hvs =>
      holds_newArray realm (FreeItems.flatten hvs).present
    refine (holds_elementAt? hm hr i).bind fun v hv => ?_
    cases v with
    | none => exact .pure freeItems_nil
    | some v =>
      exact (holds_invoke hm realm (harg 0) (harg 1)
        (freeValues_visited (freeValue?_some.mp hv) i hr)).bind fun _ hx => holds_spread hm hx
  case includes =>
    refine hlist.bind fun p hr => (holds_indexArgument hm hargs _ _ _).bind fun _ _ => ?_
    exact (Holds.collect fun i _ => holds_getRef hm realm hr _).bind fun _ _ => .pure trivial
  case indexOf =>
    exact hlist.bind fun p hr => (holds_indexArgument hm hargs _ _ _).bind fun _ _ =>
      holds_indexAmong hm hr _ _
  case lastIndexOf =>
    refine hlist.bind fun p hr => ?_
    extract_lets rest
    have hrest (stop : Nat) : F.Holds n F.FreeValue (rest stop) := holds_indexAmong hm hr _ _
    split
    · exact (holds_toInteger hm realm (hargs _ (by simp))).bind fun _ _ => .pure_bind (hrest _)
    · exact .pure_bind (hrest _)
  case join =>
    have hseparator := harg 0
    refine hlist.bind fun p hr => ?_
    extract_lets rest
    have hrest (separator : Key) : F.Holds n F.FreeValue (rest separator) :=
      holds_joinWith hm separator hr _
    split
    · exact .pure_bind (hrest _)
    · exact (holds_toText hm realm hseparator).bind fun _ _ => hrest _
  case slice =>
    refine hlist.bind fun p hr => (holds_indexArgument hm hargs _ _ _).bind fun _ _ => ?_
    refine (holds_indexArgument hm hargs _ _ _).bind fun _ _ => ?_
    exact (holds_slice hm hr _ _).bind fun _ hvs => holds_arrayOf hvs
  case toString =>
    refine (holds_toObject realm hthis).bind fun r hr => (holds_getRef hm realm hr _).bind
      fun join hjoin => .read_bind fun _ _ => .ite ?_ (.pure trivial)
    exact hm.call realm hjoin (freeValue_obj.mpr hr) freeValues_nil

theorem holds_arrayMethods : ∀ b ∈ BuiltIn.arrayMethods, F.HoldsBuiltIn b := by
  simp only [BuiltIn.arrayMethods, List.forall_mem_append]
  exact ⟨⟨holds_arrayChanges, holds_arrayVisits⟩, holds_arrayViews⟩

end LoadHook.Script.Fence
