import LoadHook.Hook.Handler
import LoadHook.Module.Host
import LoadHook.Module.Steps
import LoadHook.Proofs.Fence.Evaluation
import LoadHook.Proofs.Fence.Realm
import LoadHook.Proofs.Module.Object

/-!
# Loading modules outside of a fence

The steps of a load hold a fence as scripts do. The text of a module runs in a new realm: its global
object gets copies of what the global object of the calling realm shows, and never that object
itself. So even if the calling realm lies behind the fence the script finds nothing that does.
-/
namespace LoadHook.Script.Fence

variable (F : Fence) {α β : Type}

/-! ## Steps of a load -/

/-- If a value is thrown, it is no object behind the fence. -/
def FreeFailure : Failure → Prop
  | .thrown v => F.FreeValue v
  | .error _ => True

/-- What a step ends with: a value of a kind, or a failure. -/
def FreeOutcome (Q : α → Prop) : Except Failure α → Prop
  | .ok a => Q a
  | .error e => F.FreeFailure e

/-- A running step keeps the heap sealed, and asks for modules from the given directories only. -/
inductive Talks (n : Nat) (Q : α → Prop) : Talk (Except Failure α × Workspace) → Prop
  | done {r : Except Failure α} {w : Workspace} :
      F.Sealed n w.heap → F.FreeOutcome Q r → Talks n Q (.done (r, w))
  | ask {q : Requirement} {w : Workspace}
      {next : Except Value Value → Workspace → Talk (Except Failure α × Workspace)} :
      F.Sealed n w.heap → F.dirs q.dir →
      (∀ a v, F.FreeAnswer a → F.Sealed w.heap.realms.size v.heap → Talks n Q (next a v)) →
      Talks n Q (.ask q w next)

/-- A step keeps every heap of at least `n` realms sealed, and ends with a value of a kind, or with
something from outside of the fence. -/
def Guards (n : Nat) (Q : α → Prop) (x : Load α) : Prop :=
  ∀ w, F.Sealed n w.heap → F.Talks n Q (x w)

variable {F} {n m : Nat} {Q Q' : α → Prop} {R : β → Prop}

theorem Talks.mono {x : Talk (Except Failure α × Workspace)} (hx : F.Talks m Q x) (hn : n ≤ m)
    (hQ : ∀ a, Q a → Q' a) : F.Talks n Q' x := by
  induction hx with
  | @done r w hs hr =>
    refine .done (hs.mono hn) ?_
    cases r with
    | ok a => exact hQ a hr
    | error e => exact hr
  | ask hs hq _ ih => exact .ask (hs.mono hn) hq ih

theorem Talks.bind {x : Talk (Except Failure α × Workspace)}
    {f : Except Failure α × Workspace → Talk (Except Failure β × Workspace)} (hx : F.Talks n Q x)
    (hf : ∀ r w, F.Sealed n w.heap → F.FreeOutcome Q r → F.Talks n R (f (r, w))) :
    F.Talks n R (x.bind f) := by
  induction hx with
  | done hs hr => exact hf _ _ hs hr
  | ask hs hq _ ih => exact .ask hs hq ih

/-- A step goes on with another one, in a heap that may have got more realms. -/
theorem Talks.next {x : Load α} {f : α → Load β} {w : Workspace} (hx : F.Talks m Q (x w))
    (hn : n ≤ m) (hf : ∀ a, Q a → F.Guards m R (f a)) : F.Talks n R ((x >>= f) w) := by
  have hbind : F.Talks m R (Load.bind x f w) := by
    refine hx.bind fun r w hs hr => ?_
    cases r with
    | ok a => exact hf a hr w hs
    | error e => exact .done hs hr
  exact hbind.mono hn fun _ hb => hb

/-- What a script does is done by the step that runs it. -/
theorem Keeps.talks {x : Run (Except Abrupt α × Heap)} (hx : F.Keeps n Q x) (w : Workspace) :
    F.Talks n Q (Load.ofRun w x) := by
  induction hx generalizing w with
  | @done r h hs hr =>
    rw [Load.ofRun]
    refine .done hs ?_
    cases r with
    | ok a => exact hr
    | error e => cases e <;> exact hr
  | @ask q h next hs hq _ ih =>
    cases q with
    | print level text =>
      rw [Load.ofRun]
      exact ih (.ok .undefined) h trivial hs.grown _
    | require specifier dir realm =>
      rw [Load.ofRun]
      exact .ask hs hq fun a v ha hv => ih a v.heap ha hv v

namespace Guards

variable {x : Load α} {f : α → Load β}

theorem pure {a : α} (ha : Q a) : F.Guards n Q (Pure.pure a : Load α) := fun _ hs => .done hs ha

theorem fail (e : LoadError) : F.Guards n Q (Load.fail e : Load α) := fun _ hs => .done hs trivial

theorem bind (hx : F.Guards n Q x) (hf : ∀ a, Q a → F.Guards n R (f a)) :
    F.Guards n R (x >>= f) := fun w hs => (hx w hs).next (Nat.le_refl n) hf

/-- After the workspace has been read its heap has as many realms as it had, or more. -/
theorem read_bind {g : Workspace → α}
    (hf : ∀ w, F.Sealed n w.heap → F.Guards w.heap.realms.size R (f (g w))) :
    F.Guards n R (Load.read g >>= f) :=
  fun w hs => (hf w hs w hs.grown).mono hs.realmSize fun _ hb => hb

theorem change {g : Workspace → Workspace} (hg : ∀ w, (g w).heap = w.heap) :
    F.Guards n (fun _ => True) (Load.change g) := fun w hs => .done ((hg w).symm ▸ hs) trivial

theorem report (level : Level) (source : Source) (text : String) :
    F.Guards n (fun _ => True) (Load.report level source text) := change fun _ => rfl

theorem outcome (hx : F.Guards n Q x) : F.Guards n (F.FreeOutcome Q) (Load.outcome x) :=
  fun w hs => (hx w hs).bind fun _ _ hs hr => .done hs hr

theorem script {x : Eval α} (hx : F.Holds n Q x) : F.Guards n Q (Load.script x) :=
  fun w hs => (hx w.heap hs).talks w

theorem ite {c : Prop} [Decidable c] {y : Load α} (hx : F.Guards n Q x) (hy : F.Guards n Q y) :
    F.Guards n Q (if c then x else y) := by
  split
  · exact hx
  · exact hy

end Guards

/-! ## Thrown values -/

variable {realm : RealmRef} {r module : Ref} {v : Value}

theorem holds_errorText (hr : F.Free r) (name : String) :
    F.Holds n (fun _ => True) (Load.errorPart realm r name) := by
  have hm := trusts_standardMachine (F := F)
  unfold Load.errorPart
  refine (Holds.outcome (Q := fun _ => True) ?_).bind fun s _ => ?_
  · refine (holds_getRef hm realm hr _).bind fun v hv => ?_
    split
    · exact .pure trivial
    · exact .pure trivial
    · exact (holds_toText hm realm hv).bind fun _ _ => .pure trivial
  · split <;> exact .pure trivial

theorem holds_describe_error (hv : F.FreeValue v) :
    F.Holds n (fun _ => True) (Load.describe realm v) := by
  refine .bind (Q := F.FreeRef?) (.read fun h _ => ?_) fun r hr => ?_
  · cases v with
    | obj r =>
      dsimp only
      split
      · exact freeRef?_some.mpr hv
      · exact freeRef?_none
    | _ => exact freeRef?_none
  · cases r with
    | some r =>
      have hr := freeRef?_some.mp hr
      exact (holds_errorText hr _).bind fun _ _ =>
        (holds_errorText hr _).bind fun _ _ => .pure trivial
    | none =>
      refine (holds_toText trusts_standardMachine realm hv).outcome.bind fun s _ => ?_
      split <;> exact .pure trivial

theorem guards_caught {e : Failure} (he : F.FreeFailure e) :
    F.Guards n (fun _ => True) (Load.caught realm e) := by
  cases e with
  | thrown v => exact .script (holds_describe_error he)
  | error e => exact .pure trivial

theorem guards_throwable {e : Failure} (he : F.FreeFailure e) :
    F.Guards n F.FreeValue (Load.throwable realm e) := by
  cases e with
  | thrown v => exact .pure he
  | error e =>
    cases e with
    | engine kind text => exact .script (holds_makeError realm kind text)
    | _ => exact .script (holds_hostError _)

/-! ## Module objects and files -/

section Modules

variable (hmodule : F.Free module)

theorem guards_readFile (p : Path) : F.Guards n (fun _ => True) (Load.readFile p) := by
  refine .read_bind fun w _ => ?_
  split
  · exact .pure trivial
  · exact .fail _

theorem guards_withoutNul (text : String) : F.Guards n (fun _ => True) (Load.withoutNul text) :=
  .ite (.fail _) (.pure trivial)

include hmodule

theorem guards_property (name : String) :
    F.Guards n F.FreeValue (Load.property realm module name) :=
  .script (holds_getRef trusts_standardMachine realm hmodule _)

theorem guards_setProperty (name : String) (hv : F.FreeValue v) :
    F.Guards n (fun _ => True) (Load.setProperty realm module name v) :=
  .script (holds_assign trusts_standardMachine realm true (freeValue_obj.mpr hmodule) _ hv)

theorem guards_textProperty (name : String) :
    F.Guards n (fun _ => True) (Load.textProperty realm module name) := by
  refine (guards_property hmodule name).bind fun v _ => .read_bind fun w _ => ?_
  split
  · exact .pure trivial
  · exact .fail _

theorem guards_filename : F.Guards n (fun _ => True) (Load.filename realm module) :=
  (guards_textProperty hmodule _).bind fun _ _ => .pure trivial

theorem guards_dirname : F.Guards n (fun _ => True) (Load.dirname realm module) :=
  (guards_filename hmodule).bind fun _ _ => .pure trivial

theorem guards_exports : F.Guards n F.FreeValue (Load.exports realm module) :=
  guards_property hmodule _

theorem guards_setExports (hv : F.FreeValue v) :
    F.Guards n (fun _ => True) (Load.setExports realm module v) := guards_setProperty hmodule _ hv

end Modules

/-- A new module object is made, whose `require` takes specifiers from the directory of the
module. -/
theorem guards_newModule {p : Path} (hdir : F.dirs (p.parent.getD "")) :
    F.Guards n F.Free (Host.newModule realm p) := by
  refine .bind (Q := F.Free) (.script (.update fun h hs => ?_)) fun require hrequire => ?_
  · have hnative := hs.addNative (hs.realm realm).functionProto
      (f := .require (p.parent.getD "")) (m := realm) hdir "require" 1
    exact ⟨hs.free_new, hnative⟩
  refine .bind (Q := F.Free) (.script (.update fun h hs => ?_)) fun module hmodule => ?_
  · exact ⟨hs.free_new, hs.addPlain (freeRef?_some.mpr (hs.realm realm).objectProto)⟩
  have set (name : String) {v : Value} (hv : F.FreeValue v) :
      F.Guards n (fun _ => True) (Load.setProperty realm module name v) :=
    guards_setProperty hmodule name hv
  refine (set _ freeValue_text).bind fun _ _ => (set _ freeValue_text).bind fun _ _ => ?_
  refine (set _ freeValue_bool).bind fun _ _ => ?_
  refine (Guards.script (holds_newObject realm (by simp))).bind fun _ hv => ?_
  exact (set _ hv).bind fun _ _ =>
    (set _ (freeValue_obj.mpr hrequire)).bind fun _ _ => .pure hmodule

/-! ## The sandbox -/

/-- Code may run for a realm, which is one of the first `n`. -/
def Opens (F : Fence) (n : Nat) (realm : RealmRef) : Prop := ¬ F.closed realm ∧ realm < n

/-- A realm behind the fence shows a key in its global object. -/
def Shows (F : Fence) (source : RealmRef) (k : Key) : Prop :=
  F.closed source → ∃ p, (F.kept (F.global source)).own k = some p ∧ p.enumerable

variable {source target caller : RealmRef} {k : Key}

theorem holds_globalOf (hopen : ¬ F.closed realm) :
    F.Holds n F.Free (Sandbox.globalOf realm) := .read fun _ hs => hs.global realm hopen

/-- What is read of the global object of a realm behind the fence is what it shows. -/
theorem holds_shownKeys : F.Holds n (fun ks => ∀ k ∈ ks, F.Shows source k) (do
    Sandbox.shownKeys (← Sandbox.globalOf source)) := by
  refine .read_bind fun h hs => .read fun h' hs' k hk hclosed => ?_
  obtain ⟨-, hshown⟩ := List.mem_filter.mp hk
  rw [hs.shut source hclosed, hs'.kept _ (F.barred_global source hclosed)] at hshown
  cases hp : (F.kept (F.global source)).own k with
  | none => simp [hp] at hshown
  | some p => exact ⟨p, rfl, by simpa [hp] using hshown⟩

/-- The value that a global object shows comes from outside of the fence, even if the object does
not. -/
theorem holds_shownValue {h : Heap} (hs : F.Sealed n h) (hk : F.Shows source k) :
    F.Holds h.realms.size F.FreeValue
      (standardMachine.getRef source (h.realm source).global k) := by
  by_cases hclosed : F.closed source
  · rw [hs.shut source hclosed]
    obtain ⟨p, hp, henum⟩ := hk hclosed
    obtain ⟨v, w, hcontent, hv⟩ := F.shown source hclosed k p hp henum
    refine .read_bind fun h' hs' => ?_
    have hown : h'.own (F.global source) k = some p := by
      rw [Heap.own, hs'.kept _ (F.barred_global source hclosed)]
      exact hp
    rw [Heap.find_of_own hown]
    obtain ⟨content, e, c⟩ := p
    subst hcontent
    refine .pure ?_
    cases v with
    | obj r => exact hv r rfl
    | _ => trivial
  · exact holds_getRef trusts_standardMachine source (hs.global source hclosed) k

theorem guards_copyKey (hk : F.Shows source k) (hopen : ¬ F.closed target) :
    F.Guards n (fun _ => True) (Sandbox.copyKey source target k) := by
  unfold Sandbox.copyKey
  split
  · exact .fail _
  · refine .script (.read_bind fun h hs => (holds_shownValue hs hk).bind fun v hv => ?_)
    exact (holds_globalOf hopen).bind fun r hr =>
      holds_assign trusts_standardMachine target true (freeValue_obj.mpr hr) k hv

theorem guards_copyKeys (hopen : ¬ F.closed target) {ks : List Key}
    (hks : ∀ k ∈ ks, F.Shows source k) :
    F.Guards n (fun _ => True) (Sandbox.copyKeys source target ks) := by
  induction ks with
  | nil => exact .pure trivial
  | cons k rest ih =>
    obtain ⟨hk, hrest⟩ := List.forall_mem_cons.mp hks
    exact (guards_copyKey hk hopen).bind fun _ _ => ih hrest

section Module

variable (hmodule : F.Free module)
include hmodule

theorem guards_requireOf : F.Guards n F.FreeValue (Sandbox.requireOf realm module) := by
  refine (guards_property hmodule _).bind fun v hv => .read_bind fun w _ => .ite (.pure hv) ?_
  exact .read_bind fun w _ => .fail _

theorem guards_bindModule (hopen : ¬ F.closed realm) (output : Path) :
    F.Guards n (fun _ => True) (Sandbox.bindModule caller realm output module) := by
  have global {n : Nat} : F.Guards n F.Free (Load.script (Sandbox.globalOf realm)) :=
    .script (holds_globalOf hopen)
  have bindName (name : String) {v : Value} (hv : F.FreeValue v) :
      F.Guards n (fun _ => True) (Sandbox.bindName realm name v) :=
    global.bind fun _ hr => guards_setProperty hr name hv
  refine (guards_requireOf hmodule).bind fun _ hv => (bindName _ hv).bind fun _ _ => ?_
  refine (guards_exports hmodule).bind fun _ hv => (bindName _ hv).bind fun _ _ => ?_
  refine (bindName _ freeValue_text).bind fun _ _ => ?_
  refine (guards_dirname hmodule).bind fun _ _ => (bindName _ freeValue_text).bind fun _ _ => ?_
  refine (bindName _ (freeValue_obj.mpr hmodule)).bind fun _ _ => ?_
  exact global.bind fun _ hr => bindName _ (freeValue_obj.mpr hr)

/-- The realm in which a module runs is new, and its global object has nothing from behind the
fence. -/
theorem talks_prepare {w : Workspace} (hs : F.Sealed n w.heap) (output : Path) :
    F.Talks (w.heap.realms.size + 1) (F.Opens (w.heap.realms.size + 1))
      (Sandbox.prepare caller output module w) := by
  have hopen : ¬ F.closed w.heap.realms.size := fun h => Nat.lt_irrefl _ (hs.inside _ h)
  have hrun : Load.script (Eval.update Heap.addRealm) w =
      .done (.ok w.heap.addRealm.1, { w with heap := w.heap.addRealm.2 }) := rfl
  rw [Sandbox.prepare, Load.bind_of_done hrun, w.heap.finished_addRealm.1]
  refine Guards.bind (.script holds_shownKeys) (fun ks hks => ?_) _ hs.addRealm
  exact (guards_copyKeys hopen hks).bind fun _ _ =>
    (guards_bindModule hmodule hopen output).bind fun _ _ => .pure ⟨hopen, Nat.lt_succ_self _⟩

/-- The text of a module runs outside of the fence, whoever asks for the module. -/
theorem guards_run (output : Path) :
    F.Guards n F.FreeValue (Sandbox.run caller output module) := by
  refine (guards_readFile output).bind fun _ _ w hs => ?_
  refine (talks_prepare hmodule hs output).next (Nat.le_succ_of_le hs.realmSize)
    fun realm hrealm => ?_
  exact (guards_withoutNul _).bind fun text _ =>
    .script (holds_runText false text hrealm.1 hrealm.2)

end Module

/-! ## Handlers -/

section Handlers

variable {F : Fence} {n : Nat} {realm : RealmRef} {module : Ref} {v : Value}

/-- A handler holds the fence, for code of whatever realm it fills a module. -/
def Serves (F : Fence) (f : Handler) : Prop :=
  ∀ n realm module, F.Free module → F.Guards n (fun _ => True) (f realm module)

/-! ## Scripts and data -/

theorem serves_script : F.Serves Handler.script := fun _ _ _ hmodule =>
  (guards_filename hmodule).bind fun _ _ => (Guards.report _ _ _).bind fun _ _ =>
    (guards_run hmodule _).bind fun _ _ => .pure trivial

theorem serves_json : F.Serves Handler.json := fun _ _ _ hmodule =>
  (guards_filename hmodule).bind fun _ _ => (guards_readFile _).bind fun _ _ =>
    (guards_withoutNul _).bind fun _ _ => (Guards.script (holds_parseJson _)).bind fun _ hv =>
      guards_setExports hmodule hv

theorem serves_inert : F.Serves Handler.inert := fun _ _ _ _ => .pure trivial

theorem serves_completion : F.Serves Handler.completion := fun _ realm _ hmodule =>
  (guards_filename hmodule).bind fun _ _ => (guards_run hmodule _).bind fun _ hv =>
    (Guards.script (holds_newObject realm (by simpa using hv))).bind fun _ hv =>
      guards_setExports hmodule hv

/-! ## Hooks -/

theorem guards_chooseFor (number : Nat) (source : Path) :
    F.Guards n (fun _ => True) (Hook.chooseFor number source) := by
  intro w hs
  unfold Hook.chooseFor
  split
  · exact .done hs trivial
  · split
    · exact .done hs trivial
    · exact .done hs trivial

theorem guards_rememberFor (number : Nat) (source output : Path) :
    F.Guards n (fun _ => True) (Hook.rememberFor number source output) := by
  refine .change fun w => ?_
  split <;> rfl

theorem serves_hook (number : Nat) : F.Serves (Hook.handler number) := by
  intro n realm module hmodule
  refine (guards_filename hmodule).bind fun source _ =>
    (guards_chooseFor _ _).bind fun choice _ => ?_
  cases choice with
  | skip => exact .pure trivial
  | run output =>
    exact (Guards.report _ _ _).bind fun _ _ => (guards_run hmodule _).bind fun _ _ =>
      guards_rememberFor _ _ _

/-! ## Steps -/

section Steps

variable (hmodule : F.Free module)

theorem guards_valueOf (j : Json) : F.Guards n F.FreeValue (ModuleStep.valueOf realm j) :=
  .script (holds_parseJson _)

theorem guards_copy (hv : F.FreeValue v) : F.Guards n F.FreeValue (ModuleStep.copy realm v) := by
  refine .script ((holds_documentOf trusts_standardMachine hv).bind fun d _ => ?_)
  cases d with
  | some d => exact holds_parseJson _
  | none => exact .pure trivial

include hmodule

theorem guards_put (name : String) (hv : F.FreeValue v) :
    F.Guards n (fun _ => True) (ModuleStep.put realm module name v) := by
  refine (guards_exports hmodule).bind fun x hx => ?_
  cases x with
  | obj r => exact guards_setProperty hx name hv
  | _ => exact .fail _

theorem guards_ask (specifier : String) :
    F.Guards n F.FreeValue (ModuleStep.ask realm module specifier) :=
  (guards_requireOf hmodule).bind fun _ hf => .script
    (trusts_standardMachine.call realm hf freeValue_undefined (by simp))

theorem guards_about : F.Guards n F.FreeValue (ModuleStep.about realm module) := by
  refine (guards_textProperty hmodule _).bind fun _ _ => ?_
  refine (guards_textProperty hmodule _).bind fun _ _ => (guards_dirname hmodule).bind fun _ _ => ?_
  exact (guards_property hmodule _).bind fun _ hv =>
    .script (holds_newObject realm (by simpa using hv))

theorem guards_step (step : ModuleStep) :
    F.Guards n (fun _ => True) (step.run realm module) := by
  have ask {n : Nat} (specifier : String) :
      F.Guards n F.FreeValue (ModuleStep.ask realm module specifier) := guards_ask hmodule specifier
  cases step with
  | set name value => exact (guards_valueOf _).bind fun _ hv => guards_put hmodule _ hv
  | replace value => exact (guards_valueOf _).bind fun _ hv => guards_setExports hmodule hv
  | require specifier name => exact (ask _).bind fun _ hv => guards_put hmodule _ hv
  | adopt specifier => exact (ask _).bind fun _ hv => guards_setExports hmodule hv
  | snapshot specifier name =>
    exact (ask _).bind fun _ hv => (guards_copy hv).bind fun _ hv => guards_put hmodule _ hv
  | same first second name =>
    exact (ask _).bind fun _ _ => (ask _).bind fun _ _ => guards_put hmodule _ trivial
  | «try» specifier name =>
    refine (ask specifier).outcome.bind fun r hr => ?_
    cases r with
    | ok v =>
      exact .bind (Q := fun _ => True) (.pure trivial) fun _ _ => guards_put hmodule _ trivial
    | error e =>
      exact (guards_caught hr).bind fun _ _ =>
        .bind (Q := fun _ => True) (.pure trivial) fun _ _ => guards_put hmodule _ trivial
  | info name => exact (guards_about hmodule).bind fun _ hv => guards_put hmodule _ hv
  | throw message => exact .script ((holds_hostError _).bind fun _ hv => .throw hv)
  | fail specifier dir => exact .fail _

theorem guards_steps (steps : List ModuleStep) :
    F.Guards n (fun _ => True) (ModuleStep.runAll realm module steps) := by
  induction steps with
  | nil => exact .pure trivial
  | cons step rest ih => exact (guards_step hmodule step).bind fun _ _ => ih

end Steps

theorem serves_steps : F.Serves Handler.steps := by
  intro n realm module hmodule
  refine (guards_filename hmodule).bind fun file _ => (guards_readFile file).bind fun text _ => ?_
  split
  · exact .fail _
  · exact guards_steps hmodule _

end Handlers

end LoadHook.Script.Fence
