import LoadHook.Proofs.Fence.BuiltIn.Object
import LoadHook.Script.BuiltIn.Number
import LoadHook.Script.BuiltIn.Text

/-!
# Functions on texts and numbers, outside of a fence

What these functions give is no object, or a new list of texts. They hold every fence since what
they ask of their arguments does.
-/
namespace LoadHook.Script.Fence

variable {F : Fence} {n : Nat} {m : Machine} (hm : F.Trusts m) {realm : RealmRef} {v : Value}
  {args : List Value}

/-! ## Numbers -/

include hm in
theorem holds_textArgument (hargs : F.FreeValues args) (i : Nat) :
    F.Holds n (fun _ => True) (BuiltIn.textArgument m realm args i) :=
  (holds_toText hm realm (hargs.argument i)).map fun _ _ => trivial

theorem holds_wrappedNumber (hv : F.FreeValue v) :
    F.Holds n (fun _ => True) (BuiltIn.wrappedNumber realm v) := by
  cases v with
  | num x => exact .pure trivial
  | obj r =>
    refine .read_bind fun h _ => ?_
    split
    · exact .pure trivial
    · exact holds_typeError realm _
  | _ => exact holds_typeError realm _

theorem holds_wrappedBool (hv : F.FreeValue v) :
    F.Holds n (fun _ => True) (BuiltIn.wrappedBool realm v) := by
  cases v with
  | bool b => exact .pure trivial
  | obj r =>
    refine .read_bind fun h _ => ?_
    split
    · exact .pure trivial
    · exact holds_typeError realm _
  | _ => exact holds_typeError realm _

theorem holds_numberReaders : ∀ b ∈ BuiltIn.numberReaders, F.HoldsBuiltIn b := by
  simp -zeta only [BuiltIn.numberReaders, List.forall_mem_cons, List.not_mem_nil, false_implies,
    implies_true, and_true]
  refine ⟨?parseInt, ?parseFloat⟩
  all_goals intro n m realm this args hm _ hargs
  case parseInt =>
    exact (holds_textArgument hm hargs 0).bind fun _ _ =>
      (holds_toNumber hm realm (hargs.argument 1)).bind fun _ _ => .pure trivial
  case parseFloat => exact (holds_textArgument hm hargs 0).bind fun _ _ => .pure trivial

theorem holds_globalFunctions : ∀ b ∈ BuiltIn.globalFunctions, F.HoldsBuiltIn b := by
  simp -zeta only [BuiltIn.globalFunctions, List.forall_mem_append, List.forall_mem_cons,
    List.not_mem_nil, false_implies, implies_true, and_true]
  refine ⟨holds_numberReaders, ?isNaN, ?isFinite⟩
  all_goals
    intro n m realm this args hm _ hargs
    exact (holds_toNumber hm realm (hargs.argument 0)).bind fun _ _ => .pure trivial

theorem holds_numberFunctions : ∀ b ∈ BuiltIn.numberFunctions, F.HoldsBuiltIn b := by
  have test (f : Float → Bool) (v : Value) : F.FreeValue (BuiltIn.numberTest f v) := by
    cases v <;> trivial
  simp -zeta only [BuiltIn.numberFunctions, List.forall_mem_append, List.forall_mem_cons,
    List.not_mem_nil, false_implies, implies_true, and_true]
  refine ⟨holds_numberReaders, ?isNaN, ?isFinite, ?isInteger, ?isSafeInteger⟩
  all_goals exact fun n m realm this args _ _ _ => .pure (test _ _)

theorem holds_numberMethods : ∀ b ∈ BuiltIn.numberMethods, F.HoldsBuiltIn b := by
  simp -zeta only [BuiltIn.numberMethods, List.forall_mem_cons, List.not_mem_nil, false_implies,
    implies_true, and_true]
  refine ⟨?toString, ?toFixed, ?toLocaleString, ?valueOf⟩
  all_goals
    intro n m realm this args hm hthis hargs
    have harg := hargs.argument 0
    refine (holds_wrappedNumber hthis).bind fun x _ => ?_
  case toString =>
    split
    · exact .pure trivial
    · exact (holds_toInteger hm realm harg).bind fun _ _ =>
        .guard (holds_raise realm _ _) (.pure trivial)
  case toFixed =>
    exact (holds_toInteger hm realm harg).bind fun _ _ =>
      .guard (holds_raise realm _ _) (.ite (.pure trivial) (.pure trivial))
  case toLocaleString | valueOf => exact .pure trivial

theorem holds_boolMethods : ∀ b ∈ BuiltIn.boolMethods, F.HoldsBuiltIn b := by
  simp -zeta only [BuiltIn.boolMethods, List.forall_mem_cons, List.not_mem_nil, false_implies,
    implies_true, and_true]
  refine ⟨?toString, ?valueOf⟩
  all_goals
    intro n m realm this args hm hthis hargs
    exact (holds_wrappedBool hthis).bind fun x _ => .pure trivial

/-! ## Mathematics -/

theorem holds_unaryMath (name : String) (f : Float → Float) :
    F.HoldsBuiltIn (BuiltIn.unaryMath name f) := fun _ _ realm _ _ hm _ hargs =>
  (holds_toNumber hm realm (hargs.argument 0)).bind fun _ _ => .pure trivial

theorem holds_binaryMath (name : String) (f : Float → Float → Float) :
    F.HoldsBuiltIn (BuiltIn.binaryMath name f) := fun _ _ realm _ _ hm _ hargs =>
  (holds_toNumber hm realm (hargs.argument 0)).bind fun _ _ =>
    (holds_toNumber hm realm (hargs.argument 1)).bind fun _ _ => .pure trivial

theorem holds_listMath (name : String) (f : List Float → Float) :
    F.HoldsBuiltIn (BuiltIn.listMath name f) := fun _ _ realm _ _ hm _ hargs =>
  (Holds.collect fun v hv => holds_toNumber hm realm (hargs v hv)).bind fun _ _ => .pure trivial

theorem holds_mathFunctions : ∀ b ∈ BuiltIn.mathFunctions, F.HoldsBuiltIn b := by
  simp only [BuiltIn.mathFunctions, List.forall_mem_cons, List.not_mem_nil, false_implies,
    implies_true, holds_unaryMath, holds_binaryMath, holds_listMath, and_self]

/-! ## Texts -/

section Texts

include hm

theorem holds_textOf (hv : F.FreeValue v) :
    F.Holds n (fun _ => True) (BuiltIn.textOf m realm v) :=
  .ite (holds_toText hm realm hv) (holds_typeError realm _)

theorem holds_replacementFor (s found : Text.Utf16) (i : Nat) (hv : F.FreeValue v) :
    F.Holds n (fun _ => True) (BuiltIn.replacementFor m realm s found i v) := by
  refine .read_bind fun _ _ => .ite ?_ ((holds_toText hm realm hv).map fun _ _ => trivial)
  exact (hm.call realm hv freeValue_undefined (by simp)).bind fun _ hx => holds_toText hm realm hx

theorem holds_replaceEvery (s sought : Text.Utf16) (hv : F.FreeValue v) (fuel i : Nat) :
    F.Holds n (fun _ => True) (BuiltIn.replaceEvery m realm s sought v fuel i) := by
  induction fuel generalizing i with
  | zero => exact .pure trivial
  | succ fuel ih =>
    unfold BuiltIn.replaceEvery
    split
    · exact .pure trivial
    · refine (holds_replacementFor hm _ _ _ hv).bind fun new _ => ?_
      exact .ite (.pure_bind (.pure trivial)) ((ih _).bind fun _ _ => .pure trivial)

theorem holds_pad (hargs : F.FreeValues args) (s : Text.Utf16) (atStart : Bool) :
    F.Holds n F.FreeValue (BuiltIn.pad m realm args s atStart) := by
  have hfiller := hargs.argument 1
  refine (holds_toInteger hm realm (hargs.argument 0)).bind fun i _ => ?_
  extract_lets length missing rest
  have hrest (filler : Text.Utf16) : F.Holds n F.FreeValue (rest filler) :=
    .ite (.pure trivial) (.pure trivial)
  split
  · exact .pure_bind (hrest _)
  · exact (holds_toText hm realm hfiller).bind fun _ _ => hrest _

end Texts

theorem holds_wrappedText (hv : F.FreeValue v) :
    F.Holds n F.FreeValue (BuiltIn.wrappedText realm v) := by
  cases v with
  | str s => exact .pure trivial
  | obj r =>
    refine .read_bind fun h _ => ?_
    split
    · exact .pure trivial
    · exact holds_typeError realm _
  | _ => exact holds_typeError realm _

theorem holds_textFunctions : ∀ b ∈ BuiltIn.textFunctions, F.HoldsBuiltIn b := by
  simp -zeta only [BuiltIn.textFunctions, List.forall_mem_cons, List.not_mem_nil, false_implies,
    implies_true, and_true]
  refine ⟨?fromCharCode, ?fromCodePoint⟩
  all_goals
    intro n m realm this args hm _ hargs
    refine (Holds.collect (R := fun _ => True) fun v hv => ?_).bind fun _ _ => .pure trivial
    refine (holds_toNumber hm realm (hargs v hv)).bind fun x _ => ?_
  case fromCharCode => exact .pure trivial
  case fromCodePoint =>
    exact .guard (holds_raise realm _ _) (.ite (.pure trivial) (.pure trivial))

theorem holds_textValues : ∀ b ∈ BuiltIn.textValues, F.HoldsBuiltIn b := by
  simp -zeta only [BuiltIn.textValues, List.forall_mem_cons, List.not_mem_nil, false_implies,
    implies_true, and_true]
  exact ⟨fun n m realm this args _ hthis _ => holds_wrappedText hthis,
    fun n m realm this args _ hthis _ => holds_wrappedText hthis⟩

theorem holds_textParts : ∀ b ∈ BuiltIn.textParts, F.HoldsBuiltIn b := by
  simp -zeta only [BuiltIn.textParts, List.forall_mem_cons, List.not_mem_nil, false_implies,
    implies_true, and_true]
  refine ⟨?atIndex, ?charAt, ?charCodeAt, ?codePointAt, ?slice, ?substring, ?substr, ?split, ?trim,
    ?trimStart, ?trimEnd⟩
  all_goals
    intro n m realm this args hm hthis hargs
    have harg := hargs.argument
    refine (holds_textOf hm hthis).bind fun s _ => ?_
  case atIndex =>
    exact (holds_toInteger hm realm (harg 0)).bind fun i _ =>
      .ite (.pure trivial) (.pure (freeValue_getD_map (fun _ => trivial) trivial))
  case charAt =>
    exact (holds_toInteger hm realm (harg 0)).bind fun i _ => .ite (.pure trivial) (.pure trivial)
  case charCodeAt =>
    refine (holds_toInteger hm realm (harg 0)).bind fun i _ => ?_
    split <;> exact .pure trivial
  case codePointAt =>
    refine (holds_toInteger hm realm (harg 0)).bind fun i _ => ?_
    split
    · exact .pure trivial
    · exact .pure trivial
    · exact .ite (.pure trivial) (.pure trivial)
  case slice =>
    exact (holds_indexArgument hm hargs 0 _ _).bind fun _ _ =>
      (holds_indexArgument hm hargs 1 _ _).bind fun _ _ => .pure trivial
  case substring =>
    refine (holds_toInteger hm realm (harg 0)).bind fun i _ => ?_
    extract_lets start rest
    have hrest (stop : Nat) : F.Holds n F.FreeValue (rest stop) := .pure trivial
    have hstop := harg 1
    split
    · exact .pure_bind (hrest _)
    · exact (holds_toInteger hm realm hstop).bind fun _ _ => .pure_bind (hrest _)
  case substr =>
    refine (holds_indexArgument hm hargs 0 _ _).bind fun start _ => ?_
    extract_lets rest
    have hrest (count : Nat) : F.Holds n F.FreeValue (rest count) := .pure trivial
    have hcount := harg 1
    split
    · exact .pure_bind (hrest _)
    · exact (holds_toInteger hm realm hcount).bind fun _ _ => .pure_bind (hrest _)
  case split =>
    extract_lets rest
    have hrest (limit : Nat) : F.Holds n F.FreeValue (rest limit) := by
      simp -zeta only [rest]
      extract_lets finish
      have hfinish (parts : List Text.Utf16) : F.Holds n F.FreeValue (finish parts) :=
        holds_keyArray _
      have hseparator := harg 0
      split
      · exact .pure_bind (hfinish _)
      · exact (holds_toText hm realm hseparator).bind fun _ _ =>
          .ite (.pure_bind (hfinish _)) (.pure_bind (hfinish _))
    have hlimit := harg 1
    split
    · exact .pure_bind (hrest _)
    · exact (holds_toNumber hm realm hlimit).bind fun _ _ => .pure_bind (hrest _)
  case trim | trimStart | trimEnd => exact .pure trivial

theorem holds_textSearches : ∀ b ∈ BuiltIn.textSearches, F.HoldsBuiltIn b := by
  simp -zeta only [BuiltIn.textSearches, List.forall_mem_cons, List.not_mem_nil, false_implies,
    implies_true, and_true]
  refine ⟨?indexOf, ?lastIndexOf, ?includes, ?startsWith, ?endsWith, ?localeCompare⟩
  all_goals
    intro n m realm this args hm hthis hargs
    have harg := hargs.argument
    refine (holds_textOf hm hthis).bind fun s _ => ?_
    refine (holds_toText hm realm (harg 0)).bind fun sought _ => ?_
  case indexOf =>
    exact (holds_toInteger hm realm (harg 1)).bind fun i _ =>
      .pure (freeValue_getD_map (fun _ => trivial) trivial)
  case lastIndexOf =>
    exact (holds_toNumber hm realm (harg 1)).bind fun i _ =>
      .pure (freeValue_getD_map (fun _ => trivial) trivial)
  case includes | startsWith =>
    exact (holds_toInteger hm realm (harg 1)).bind fun i _ => .pure trivial
  case endsWith =>
    extract_lets rest
    have hrest (stop : Nat) : F.Holds n F.FreeValue (rest stop) := .pure trivial
    have hstop := harg 1
    split
    · exact .pure_bind (hrest _)
    · exact (holds_toInteger hm realm hstop).bind fun _ _ => .pure_bind (hrest _)
  case localeCompare => exact .pure trivial

theorem holds_textChanges : ∀ b ∈ BuiltIn.textChanges, F.HoldsBuiltIn b := by
  simp -zeta only [BuiltIn.textChanges, List.forall_mem_cons, List.not_mem_nil, false_implies,
    implies_true, and_true]
  refine ⟨?concat, ?repeatText, ?padStart, ?padEnd, ?replace, ?replaceAll, ?toLowerCase,
    ?toUpperCase⟩
  all_goals
    intro n m realm this args hm hthis hargs
    have harg := hargs.argument
    refine (holds_textOf hm hthis).bind fun s _ => ?_
  case concat =>
    exact (Holds.collect fun v hv => holds_toText hm realm (hargs v hv)).bind fun _ _ =>
      .pure trivial
  case repeatText =>
    exact (holds_toInteger hm realm (harg 0)).bind fun i _ =>
      .guard (holds_raise realm _ _) (.pure trivial)
  case padStart | padEnd => exact holds_pad hm hargs _ _
  case replace =>
    refine (holds_toText hm realm (harg 0)).bind fun sought _ => ?_
    split
    · exact .pure trivial
    · exact (holds_replacementFor hm _ _ _ (harg 1)).bind fun _ _ => .pure trivial
  case replaceAll =>
    exact (holds_toText hm realm (harg 0)).bind fun sought _ =>
      (holds_replaceEvery hm _ _ (harg 1) _ _).bind fun _ _ => .pure trivial
  case toLowerCase | toUpperCase => exact .pure trivial

theorem holds_textMethods : ∀ b ∈ BuiltIn.textMethods, F.HoldsBuiltIn b := by
  simp only [BuiltIn.textMethods, List.forall_mem_append]
  exact ⟨⟨⟨holds_textParts, holds_textSearches⟩, holds_textChanges⟩, holds_textValues⟩

end LoadHook.Script.Fence
