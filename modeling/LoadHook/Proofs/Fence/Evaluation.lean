import LoadHook.Proofs.Fence.BuiltIn.Array
import LoadHook.Proofs.Fence.BuiltIn.Json
import LoadHook.Proofs.Fence.BuiltIn.Maker
import LoadHook.Proofs.Fence.BuiltIn.Text
import LoadHook.Proofs.Fence.Expression
import LoadHook.Proofs.Fence.Statement
import LoadHook.Script.Evaluation

/-!
# Programs outside of a fence

The machine that scripts run on holds every fence, however deep it nests, since each level trusts
the one below it. So does a program for a realm that is not behind the fence: its names are found in
the scopes and in the global object of that realm.
-/
namespace LoadHook.Script.Fence

variable {F : Fence} {n : Nat} {m : Machine} {realm : RealmRef} {r : Ref} {v : Value}
  {args : List Value}

/-! ## Functions of the host -/

/-- All built-in functions hold the fence. -/
theorem holds_ofOwner (owner : Owner) : ∀ b ∈ BuiltIn.ofOwner owner, F.HoldsBuiltIn b := by
  cases owner with
  | global => exact holds_globalFunctions
  | object => exact holds_objectFunctions
  | objectPrototype =>
    exact List.forall_mem_append.mpr ⟨holds_objectMethods, holds_protoAccessors⟩
  | functionPrototype => exact holds_functionMethods
  | array => exact holds_arrayFunctions
  | arrayPrototype => exact holds_arrayMethods
  | string => exact holds_textFunctions
  | stringPrototype => exact holds_textMethods
  | number => exact holds_numberFunctions
  | numberPrototype => exact holds_numberMethods
  | booleanPrototype => exact holds_boolMethods
  | math => exact holds_mathFunctions
  | json => exact holds_jsonFunctions
  | errorPrototype => exact holds_errorMethods
  | performance => exact List.forall_mem_singleton.mpr fun _ _ _ _ _ _ _ _ => .pure trivial

section Calls

variable (hm : F.Trusts m)
include hm

theorem holds_builtIn (owner : Owner) (name : String) (hv : F.FreeValue v)
    (hargs : F.FreeValues args) :
    F.Holds n F.FreeValue (BuiltIn.call m realm owner name v args) := by
  unfold BuiltIn.call
  split
  · next b hb => exact holds_ofOwner owner b (List.mem_of_find?_eq_some hb) _ _ _ _ _ hm hv hargs
  · exact .pure trivial

omit hm in
theorem holds_callRequire {dir : Path} (hdir : F.dirs dir) :
    F.Holds n F.FreeValue (Machine.callRequire realm dir args) := by
  unfold Machine.callRequire
  split
  · exact holds_typeError realm _
  · refine .read_bind fun h _ => ?_
    split
    · exact .ask hdir
    · exact holds_typeError realm _

theorem holds_callPrint (level : Level) (hargs : F.FreeValues args) :
    F.Holds n F.FreeValue (m.callPrint realm level args) := by
  refine (Holds.collect (R := fun _ => True) fun v hv => ?_).bind fun texts _ => ?_
  · refine (holds_toText hm realm (hargs v hv)).bind fun s _ => ?_
    split
    · exact .pure trivial
    · exact holds_typeError realm _
  · exact .bind (.ask trivial) fun _ _ => .pure trivial

theorem holds_callNative {own : RealmRef} {f : Native} (hf : F.CleanNative n f own)
    (hv : F.FreeValue v) (hargs : F.FreeValues args) :
    F.Holds n F.FreeValue (m.callNative realm own f v args) := by
  cases f with
  | method owner name => exact holds_builtIn hm owner name hv hargs
  | maker maker => exact holds_make hm hf hargs freeRef?_none
  | require dir => exact holds_callRequire hf
  | print level => exact holds_callPrint hm level hargs

theorem holds_callObject {f : Value} (hf : F.FreeValue f) (hv : F.FreeValue v)
    (hargs : F.FreeValues args) : F.Holds n F.FreeValue (m.callObject realm f v args) := by
  cases f with
  | obj r =>
    refine .read_bind fun h hs => ?_
    have hkind := (hs.object r hf).kind
    generalize (h.object r).kind = kind at hkind
    cases kind with
    | closure c => exact holds_callClosure hm hkind hf hv hargs
    | native f own => exact holds_callNative hm hkind hv hargs
    | bound target this front =>
      exact hm.call realm (freeValue_obj.mpr hkind.1) hkind.2.1
        (freeValues_append.mpr ⟨hkind.2.2, hargs⟩)
    | _ => exact holds_typeError realm _
  | _ => exact holds_typeError realm _

theorem holds_constructObject {newTarget : Ref} (hr : F.Free r) (hargs : F.FreeValues args)
    (hnew : F.Free newTarget) :
    F.Holds n F.FreeValue (m.constructObject realm r args newTarget) := by
  refine .read_bind fun h hs => ?_
  have hkind := (hs.object r hr).kind
  generalize (h.object r).kind = kind at hkind
  cases kind with
  | closure c => exact holds_constructClosure hm hkind hr hargs hnew
  | native f own =>
    cases f with
    | maker maker => exact holds_make hm hkind hargs (freeRef?_some.mpr hnew)
    | _ => exact holds_typeError realm _
  | bound target this front =>
    refine hm.construct realm hkind.1 (freeValues_append.mpr ⟨hkind.2.2, hargs⟩) ?_
    split
    · exact hkind.1
    · exact hnew
  | _ => exact holds_typeError realm _

end Calls

/-! ## The machine -/

/-- However deep evaluation may be nested, its parts hold the fence. -/
theorem trusts_machine (fuel : Nat) : F.Trusts (machine fuel) := by
  induction fuel with
  | zero =>
    exact ⟨fun _ _ => .stop trivial, fun _ _ => .stop trivial, fun _ _ _ _ => .stop trivial,
      fun _ _ _ _ => .stop trivial, fun _ _ _ _ => .stop trivial⟩
  | succ fuel ih =>
    exact {
      expr := fun e hctx => holds_evaluate ih hctx e
      stmt := fun s hctx => holds_execute ih hctx s
      bind := fun mode p hctx hv => holds_bindPattern ih hctx mode p hv
      call := fun _ hf hv hargs => holds_callObject ih hf hv hargs
      construct := fun _ hr hargs hnew => holds_constructObject ih hr hargs hnew }

theorem trusts_standardMachine : F.Trusts standardMachine := trusts_machine depthLimit

/-! ## Programs -/

theorem Sealed.declareGlobal {h : Heap} (hs : F.Sealed n h) (hopen : ¬ F.closed realm) (k : Key) :
    F.Sealed n (h.declareGlobal realm k) := by
  unfold Heap.declareGlobal
  extract_lets g
  split
  · exact hs
  · exact hs.define (hs.global realm hopen) k ⟨freeValue?_some.mpr trivial, nofun, nofun⟩

theorem Sealed.declareGlobals {h : Heap} (hs : F.Sealed n h) (hopen : ¬ F.closed realm)
    (ks : List Key) : F.Sealed n (ks.foldl (fun h k => h.declareGlobal realm k) h) := by
  induction ks generalizing h with
  | nil => exact hs
  | cons k rest ih => exact ih (hs.declareGlobal hopen k)

variable {ctx : Context}

/-- A global function belongs to the global object of its realm. -/
theorem holds_defineGlobalFunction (hctx : F.FreeContext ctx) (f : Func) :
    F.Holds n (fun _ => True) (defineGlobalFunction ctx f) := by
  refine (holds_makeFunction hctx false freeRef?_none f).bind fun r hr => .change fun h hs => ?_
  have hvalue : F.FreeValue? (some (.obj r)) := freeValue?_some.mpr hr
  refine hs.define (hs.global _ hctx.realm) f.name ?_
  split <;> split <;> exact ⟨hvalue, nofun, nofun⟩

theorem holds_declareProgram (hctx : F.FreeContext ctx) (p : Program) :
    F.Holds n (fun _ => True) (p.declare ctx) := by
  refine .read_bind fun h _ => ?_
  split
  · exact holds_raise _ _ _
  · refine (Holds.each fun f _ => holds_defineGlobalFunction hctx f).bind fun _ _ => ?_
    refine .bind (.change fun h hs => hs.declareGlobals hctx.realm p.vars) fun _ _ => ?_
    exact .change fun h hs => hs.announce hctx.scope _

/-- A program that runs for a realm outside of the fence ends with nothing from behind it. -/
theorem holds_program (p : Program) (hopen : ¬ F.closed realm) (hrealm : realm < n) :
    F.Holds n F.FreeValue (p.run realm) := by
  refine .read_bind fun h hs => ?_
  have hscope := hs.lexical realm hopen (Nat.lt_of_lt_of_le hrealm hs.realmSize)
  have hkept := hs.completion
  dsimp -zeta only
  extract_lets ctx
  have hctx : F.FreeContext ctx := ⟨hscope, hopen, hscope⟩
  refine .bind (.change fun h hs => hs.withCompletion trivial) fun _ _ => ?_
  refine .bind (Holds.outcome (Q := F.FreeValue) ?_) fun r hr => ?_
  · refine (holds_declareProgram hctx p).bind fun _ _ => ?_
    exact (holds_sequence trusts_standardMachine hctx _).bind fun _ _ =>
      .read fun h hs => hs.completion
  · refine .bind (.change fun h hs => hs.withCompletion hkept) fun _ _ => ?_
    split
    · exact (holds_makeError realm _ _).bind fun _ hv => .throw hv
    · exact .ofResult hr

theorem holds_runText (strict : Bool) (text : String) (hopen : ¬ F.closed realm)
    (hrealm : realm < n) : F.Holds n F.FreeValue (runText realm strict text) := by
  unfold runText
  split
  · exact holds_program _ hopen hrealm
  · exact holds_raise realm _ _

theorem holds_hostError (message : String) :
    F.Holds n F.FreeValue (hostError realm message) :=
  .update fun _ hs => ⟨hs.free_new, hs.addError (by simp [stackProperty])⟩

end LoadHook.Script.Fence
