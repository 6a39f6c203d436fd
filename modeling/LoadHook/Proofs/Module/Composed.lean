import LoadHook.Module.Entry
import LoadHook.Module.Steps

/-!
# What steps are composed of

A step of a load is composed of a few simple ones: it looks at the heap and at the files, writes a
line of the log, runs a script, or fails. What holds of the simple steps and of one step after
another holds of all steps of the host and of the handlers that come with it.
-/
namespace LoadHook

open Script (Value RealmRef Ref Eval)

/-- The files and the heap alone. -/
def Workspace.bare (w : Workspace) : Workspace :=
  ⟨⟨w.world.tree, [], default, 0, #[]⟩, w.heap, #[]⟩

namespace Load

variable {α : Type}

/-- A step that is composed of simple ones. -/
inductive Composed : {α : Type} → Load α → Prop where
  | pure {α : Type} (a : α) : Composed (Pure.pure a : Load α)
  | fail {α : Type} (e : LoadError) : Composed (Load.fail e : Load α)
  | read {α : Type} {f : Workspace → α} (bare : ∀ w, f w.bare = f w) : Composed (Load.read f)
  | report (level : Level) (source : Source) (text : String) :
      Composed (Load.report level source text)
  | script {α : Type} (x : Eval α) : Composed (Load.script x)
  | bind {α β : Type} {x : Load α} {f : α → Load β} (first : Composed x)
      (next : ∀ a, Composed (f a)) : Composed (x >>= f)
  | outcome {α : Type} {x : Load α} (tried : Composed x) : Composed (Load.outcome x)

/-! ## The steps of the host -/

theorem composed_readFile (p : Path) : Composed (readFile p) := by
  refine .bind (.read fun _ => rfl) fun text => ?_
  cases text with
  | ok text => exact .pure text
  | error cause => exact .fail _

theorem composed_withoutNul (text : String) : Composed (withoutNul text) := by
  unfold withoutNul
  extract_lets before
  split
  · exact .fail _
  · exact .pure text

theorem composed_throwable (realm : RealmRef) (e : Failure) : Composed (throwable realm e) := by
  cases e with
  | thrown v => exact .pure v
  | error e => cases e <;> exact .script _

theorem composed_caught (realm : RealmRef) (e : Failure) : Composed (caught realm e) := by
  cases e with
  | thrown v => exact .script _
  | error e => exact .pure e

theorem composed_setProperty (realm : RealmRef) (r : Ref) (name : String) (v : Value) :
    Composed (setProperty realm r name v) := .script _

theorem composed_textProperty (realm : RealmRef) (r : Ref) (name : String) :
    Composed (textProperty realm r name) := by
  refine .bind (.script _) fun v => .bind (.read fun _ => rfl) fun text => ?_
  cases text with
  | ok text => exact .pure text
  | error text => exact .fail _

theorem composed_filename (realm : RealmRef) (module : Ref) : Composed (filename realm module) :=
  .bind (composed_textProperty _ _ _) fun _ => .pure _

theorem composed_dirname (realm : RealmRef) (module : Ref) : Composed (dirname realm module) :=
  .bind (composed_filename _ _) fun _ => .pure _

theorem composed_newModule (realm : RealmRef) (p : Path) : Composed (Host.newModule realm p) := by
  refine .bind (.script _) fun require => .bind (.script _) fun r => ?_
  refine .bind (composed_setProperty _ _ _ _) fun _ => ?_
  refine .bind (composed_setProperty _ _ _ _) fun _ => ?_
  refine .bind (composed_setProperty _ _ _ _) fun _ => ?_
  refine .bind (.script _) fun exports => ?_
  refine .bind (composed_setProperty _ _ _ _) fun _ => ?_
  exact .bind (composed_setProperty _ _ _ _) fun _ => .pure r

/-! ## The sandbox -/

theorem composed_copyKeys (source target : RealmRef) (ks : List Script.Key) :
    Composed (Sandbox.copyKeys source target ks) := by
  induction ks with
  | nil => exact .pure ()
  | cons k rest ih =>
    refine .bind ?_ fun _ => ih
    unfold Sandbox.copyKey
    split
    · exact .fail _
    · exact .script _

theorem composed_requireOf (realm : RealmRef) (module : Ref) :
    Composed (Sandbox.requireOf realm module) := by
  refine .bind (.script _) fun v => .bind (.read fun _ => rfl) fun callable => ?_
  split
  · exact .pure v
  · exact .bind (.read fun _ => rfl) fun _ => .fail _

theorem composed_bindName (realm : RealmRef) (name : String) (v : Value) :
    Composed (Sandbox.bindName realm name v) :=
  .bind (.script _) fun _ => composed_setProperty _ _ _ _

theorem composed_bindModule (caller realm : RealmRef) (output : Path) (module : Ref) :
    Composed (Sandbox.bindModule caller realm output module) := by
  refine .bind (composed_requireOf _ _) fun require => .bind (composed_bindName _ _ _) fun _ => ?_
  refine .bind (.script _) fun exports => .bind (composed_bindName _ _ _) fun _ => ?_
  refine .bind (composed_bindName _ _ _) fun _ => ?_
  refine .bind (composed_dirname _ _) fun dir => .bind (composed_bindName _ _ _) fun _ => ?_
  refine .bind (composed_bindName _ _ _) fun _ => ?_
  exact .bind (.script _) fun _ => composed_bindName _ _ _

/-- Running a file as the body of a module leaves the files and the hooks to what it asks for. -/
theorem composed_run (caller : RealmRef) (output : Path) (module : Ref) :
    Composed (Sandbox.run caller output module) := by
  refine .bind (composed_readFile output) fun text => .bind ?_ fun realm => ?_
  · refine .bind (.script _) fun realm => .bind (.script _) fun ks => ?_
    refine .bind (composed_copyKeys _ _ ks) fun _ => ?_
    exact .bind (composed_bindModule _ _ _ _) fun _ => .pure realm
  · exact .bind (composed_withoutNul text) fun _ => .script _

/-! ## Handlers -/

theorem composed_scriptHandler (realm : RealmRef) (module : Ref) :
    Composed (Handler.script realm module) := by
  refine .bind (composed_filename _ _) fun file => .bind (.report _ _ _) fun _ => ?_
  exact .bind (composed_run _ _ _) fun _ => .pure ()

theorem composed_jsonHandler (realm : RealmRef) (module : Ref) :
    Composed (Handler.json realm module) := by
  refine .bind (composed_filename _ _) fun file => .bind (composed_readFile file) fun text => ?_
  refine .bind (composed_withoutNul text) fun text => .bind (.script _) fun v => ?_
  exact composed_setProperty _ _ _ _

theorem composed_completionHandler (realm : RealmRef) (module : Ref) :
    Composed (Handler.completion realm module) := by
  refine .bind (composed_filename _ _) fun file => .bind (composed_run _ _ _) fun v => ?_
  exact .bind (.script _) fun _ => composed_setProperty _ _ _ _

/-! ## Modules given as steps -/

theorem composed_ask (realm : RealmRef) (module : Ref) (specifier : String) :
    Composed (ModuleStep.ask realm module specifier) :=
  .bind (composed_requireOf _ _) fun _ => .script _

theorem composed_put (realm : RealmRef) (module : Ref) (name : String) (v : Value) :
    Composed (ModuleStep.put realm module name v) := by
  refine .bind (.script _) fun exports => ?_
  cases exports with
  | obj r => exact composed_setProperty _ _ _ _
  | _ => exact .fail _

theorem composed_about (realm : RealmRef) (module : Ref) :
    Composed (ModuleStep.about realm module) := by
  refine .bind (composed_textProperty _ _ _) fun id => ?_
  refine .bind (composed_textProperty _ _ _) fun file => .bind (composed_dirname _ _) fun dir => ?_
  exact .bind (.script _) fun loaded => .script _

theorem composed_step (realm : RealmRef) (module : Ref) (step : ModuleStep) :
    Composed (step.run realm module) := by
  cases step with
  | set name value => exact .bind (.script _) fun _ => composed_put _ _ _ _
  | replace value => exact .bind (.script _) fun _ => composed_setProperty _ _ _ _
  | require specifier name => exact .bind (composed_ask _ _ _) fun _ => composed_put _ _ _ _
  | adopt specifier => exact .bind (composed_ask _ _ _) fun _ => composed_setProperty _ _ _ _
  | snapshot specifier name =>
    exact .bind (composed_ask _ _ _) fun _ => .bind (.script _) fun _ => composed_put _ _ _ _
  | same first second name =>
    refine .bind (composed_ask _ _ _) fun _ => .bind (composed_ask _ _ _) fun _ => ?_
    exact composed_put _ _ _ _
  | «try» specifier name =>
    refine .bind (.outcome (composed_ask _ _ _)) fun outcome => ?_
    cases outcome with
    | ok _ => exact .bind (.pure _) fun _ => composed_put _ _ _ _
    | error failure =>
      exact .bind (composed_caught _ _) fun _ => .bind (.pure _) fun _ => composed_put _ _ _ _
  | info name => exact .bind (composed_about _ _) fun _ => composed_put _ _ _ _
  | throw message => exact .script _
  | fail specifier dir => exact .fail _

theorem composed_stepsHandler (realm : RealmRef) (module : Ref) :
    Composed (Handler.steps realm module) := by
  refine .bind (composed_filename _ _) fun file => .bind (composed_readFile file) fun text => ?_
  cases Json.parse text with
  | error fault => exact .fail _
  | ok j =>
    change Composed (ModuleStep.runAll realm module _)
    generalize (j.arr?.getD []).filterMap ModuleStep.ofJson? = steps
    induction steps with
    | nil => exact .pure ()
    | cons step rest ih => exact .bind (composed_step _ _ step) fun _ => ih

/-! ## Code from outside -/

theorem composed_text? (v : Value) : Composed (Form.text? v) := by
  refine .bind (.read fun _ => rfl) fun text => ?_
  cases text with
  | ok text => exact .pure text
  | error text => exact .fail _

theorem composed_texts? (realm : RealmRef) (v : Value) (places : List Nat) :
    Composed (Form.texts? realm v places) := by
  induction places with
  | nil => exact .pure []
  | cons i rest ih =>
    refine .bind (.script _) fun item => .bind (composed_text? item) fun s => ?_
    exact .bind ih fun _ => .pure _

/-- Reading a value may run scripts, and does nothing else. -/
theorem composed_form (form : Form) (realm : RealmRef) (v : Value) :
    Composed (form.read realm v) := by
  have refuse {γ : Type} (target : String) : Composed (Form.refuse v target : Load γ) :=
    .bind (.read fun _ => rfl) fun _ => .fail _
  cases form with
  | unit => exact .pure _
  | int32 => cases v <;> first | exact .pure _ | exact refuse _
  | bool => cases v <;> first | exact .pure _ | exact refuse _
  | text => exact .bind (composed_text? v) fun _ => .pure _
  | texts =>
    refine .bind (.read fun _ => rfl) fun isArray => ?_
    split
    · exact .bind (.script _) fun n => .bind (composed_texts? _ _ _) fun _ => .pure _
    · exact refuse _
  | optionalText =>
    simp only [Form.read]
    split
    · exact .bind (composed_text? v) fun _ => .pure _
    · exact .pure _
  | anyText =>
    refine .bind (.script _) fun s => ?_
    split
    · exact .pure _
    · exact .fail _

theorem composed_evaluate (code : String) (form : Form) : Composed (Host.evaluate code form) := by
  refine .bind (composed_withoutNul code) fun code => .bind (.script _) fun v => ?_
  exact composed_form form _ v

theorem composed_exportsText (module : Ref) : Composed (Host.exportsText module) :=
  .bind (.script _) fun _ => .bind (.script _) fun _ => .pure _

end Load

/-! ## Handlers without hooks -/

/-- The handlers that do without hooks. -/
inductive Handler.Simple : Handler → Prop
  | script : Simple .script
  | json : Simple .json
  | inert : Simple .inert
  | completion : Simple .completion
  | steps : Simple .steps

theorem Handler.Simple.composed {f : Handler} (hf : f.Simple) (realm : RealmRef) (module : Ref) :
    Load.Composed (f realm module) := by
  cases hf with
  | script => exact Load.composed_scriptHandler realm module
  | json => exact Load.composed_jsonHandler realm module
  | inert => exact .pure ()
  | completion => exact Load.composed_completionHandler realm module
  | steps => exact Load.composed_stepsHandler realm module

theorem Registry.simple_initial {e : String} {f : Handler}
    (hf : (e, f) ∈ Registry.initial.handlers) : f.Simple := by
  simp only [Registry.initial, List.mem_cons, Prod.mk.injEq, List.not_mem_nil, or_false] at hf
  rcases hf with ⟨-, rfl⟩ | ⟨-, rfl⟩
  · exact .script
  · exact .json

end LoadHook
