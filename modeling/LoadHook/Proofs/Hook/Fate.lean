import LoadHook.Proofs.Hook.Dispatch

/-!
# What becomes of a source

A hook that is dispatched for a source compiles it, takes the output that it remembers, fails to
compile it, or refuses it because it cannot tell whether the source has changed. Which of these it
is depends on the hook and on the world when the handler is dispatched, and `Dispatch.Fares` tells
it from what the dispatch comes to: an output is run in the sandbox, or not, and the dispatch fails
with a refusal, or not. A script cannot pass for a refusal, for what it throws is no error of a
hook.
-/
namespace LoadHook

open Script (Value RealmRef Ref)

/-- What becomes of a source that a hook is dispatched for. -/
inductive Fate where
  | compiled
  | reused
  /-- Compiling has failed. -/
  | aborted
  /-- It cannot be told whether the source has changed. -/
  | refused
  deriving DecidableEq

/-- Whether an output is run. -/
def Fate.executes : Fate → Bool
  | .compiled | .reused => true
  | .aborted | .refused => false

namespace HookStats

/-- The counters of a hook when one source more has met its fate. -/
def count (s : HookStats) : Fate → HookStats
  | .compiled => { s with compilations := s.compilations + 1 }
  | .reused => { s with cacheHits := s.cacheHits + 1 }
  | .aborted => { s with aborted := s.aborted + 1 }
  | .refused => s

end HookStats

namespace Hook

variable {k : Hook} {s : Path} {w : World} {number : Nat}

/-- What becomes of a source that an attempt is made to compile. -/
def attempted (k : Hook) (s : Path) (w : World) : Fate :=
  match (k.attempt s w).result with
  | .ok _ => .compiled
  | .error _ => .aborted

/-- What becomes of a source. -/
def fate (k : Hook) (s : Path) (w : World) : Fate :=
  match k.cache.get? s with
  | none => k.attempted s w
  | some o =>
    match w.tree.isModified s o with
    | .error _ => .refused
    | .ok true => k.attempted s w
    | .ok false => .reused

/-- What a hook chooses, by what becomes of the source. -/
inductive Chooses (k : Hook) (s : Path) (w : World) : Prop
  | refuses {cause : Cause} : k.choose s w = .error cause → k.fate s w = .refused → Chooses k s w
  | skips {k' : Hook} {w' : World} : k.choose s w = .ok (.skip, k', w') →
    k.fate s w = .aborted → k'.stats = k.stats.count (k.fate s w) → Chooses k s w
  | runs {k' : Hook} {w' : World} {o : Path} : k.choose s w = .ok (.run o, k', w') →
    (k.fate s w).executes → k'.stats = k.stats.count (k.fate s w) → Chooses k s w

/-- A hook that compiles a source chooses by what the attempt comes to. -/
theorem chooses_of_compile (hc : k.choose s w = .ok (k.compile s w))
    (hf : k.fate s w = k.attempted s w) : Chooses k s w := by
  cases hr : (k.attempt s w).result with
  | ok o =>
    have hfate : k.fate s w = .compiled := by rw [hf, attempted, hr]
    exact .runs (hc.trans (congrArg _ (compile_of_ok hr))) (by rw [hfate]; rfl) (by rw [hfate]; rfl)
  | error e =>
    have hfate : k.fate s w = .aborted := by rw [hf, attempted, hr]
    exact .skips (hc.trans (congrArg _ (compile_of_error hr))) hfate (by rw [hfate]; rfl)

theorem chooses (k : Hook) (s : Path) (w : World) : Chooses k s w := by
  cases ho : k.cache.get? s with
  | none => exact chooses_of_compile (by rw [choose, ho]) (by rw [fate, ho])
  | some o =>
    cases hm : w.tree.isModified s o with
    | error cause =>
      have hc : k.choose s w = .error cause := by simp only [choose, ho, hm]
      exact .refuses hc (by simp only [fate, ho, hm])
    | ok modified =>
      cases modified with
      | true =>
        exact chooses_of_compile (by simp only [choose, ho, hm]) (by simp only [fate, ho, hm])
      | false =>
        have hfate : k.fate s w = .reused := by simp only [fate, ho, hm]
        have hc : k.choose s w = .ok (k.reuse s o w) := by simp only [choose, ho, hm]
        exact .runs hc (by rw [hfate]; rfl) (by rw [hfate]; rfl)

/-- Where an output is chosen the fate of the source is to be executed. -/
theorem executes_of_choose {k' : Hook} {w' : World} {o : Path}
    (hc : k.choose s w = .ok (.run o, k', w')) : (k.fate s w).executes := by
  cases k.chooses s w with
  | refuses hc' => cases hc.symm.trans hc'
  | skips hc' => cases hc.symm.trans hc'
  | runs _ he => exact he

/-- An output is reused only if it is remembered. -/
theorem known_of_reused (hf : k.fate s w = .reused) : ∃ o, k.cache.get? s = some o := by
  cases ho : k.cache.get? s with
  | none =>
    rw [fate, ho] at hf
    simp only [attempted] at hf
    split at hf <;> cases hf
  | some o => exact ⟨o, rfl⟩

end Hook

/-! ## Refusals -/

/-- The error of a hook that cannot tell whether a source has changed. -/
def Failure.Refusal (e : Failure) : Prop := ∃ s cause, e = .error (.uncheckable s cause)

theorem Failure.not_refusal_thrown {v : Value} : ¬ (Failure.thrown v).Refusal := by
  rintro ⟨s, cause, he⟩
  cases he

theorem Failure.not_refusal_engine {kind : Script.ErrorKind} {text : String} :
    ¬ (Failure.error (.engine kind text)).Refusal := by
  rintro ⟨s, cause, he⟩
  cases he

theorem Failure.not_refusal_unreadable {p : Path} {cause : Cause} :
    ¬ (Failure.error (.unreadable p cause)).Refusal := by
  rintro ⟨s, cause, he⟩
  cases he

namespace Load

variable {α β : Type}

/-- However it is answered, a dialogue does not end with a refusal. -/
inductive Unrefused : Talk (Except Failure α × Workspace) → Prop
  | done {a : α} {w : Workspace} : Unrefused (.done (.ok a, w))
  | failed {e : Failure} {w : Workspace} : ¬ e.Refusal → Unrefused (.done (.error e, w))
  | ask {q : Requirement} {w : Workspace}
      {next : Except Value Value → Workspace → Talk (Except Failure α × Workspace)} :
      (∀ a v, Unrefused (next a v)) → Unrefused (.ask q w next)

/-- A step that never ends with a refusal. -/
def Settled (x : Load α) : Prop := ∀ w, Unrefused (x w)

namespace Settled

variable {x : Load α} {f : α → Load β}

theorem pure (a : α) : Settled (Pure.pure a : Load α) := fun _ => .done

theorem read (f : Workspace → α) : Settled (Load.read f) := fun _ => .done

theorem fail {e : LoadError} (he : ¬ (Failure.error e).Refusal) :
    Settled (Load.fail e : Load α) := fun _ => .failed he

theorem bind (hx : Settled x) (hf : ∀ a, Settled (f a)) : Settled (x >>= f) := by
  intro w
  change Unrefused (Load.bind x f w)
  rw [Load.bind]
  have hw := hx w
  generalize x w = d at hw
  induction hw with
  | done => exact hf _ _
  | failed he => exact .failed he
  | ask _ ih => exact .ask ih

end Settled

theorem unrefused_ofRun (w : Workspace)
    (x : Script.Run (Except Script.Abrupt α × Script.Heap)) : Unrefused (ofRun w x) := by
  induction x generalizing w with
  | done r =>
    obtain ⟨r, heap⟩ := r
    cases r with
    | ok a => exact .done
    | error e =>
      refine .failed ?_
      cases e with
      | thrown v => exact Failure.not_refusal_thrown
      | overflow | absent => exact Failure.not_refusal_engine
  | ask q heap next ih =>
    cases q with
    | print level text => exact ih _ _ _
    | require specifier dir realm => exact .ask fun a v => ih _ _ _

theorem settled_script (x : Script.Eval α) : Settled (script x) := fun w => unrefused_ofRun w _

theorem settled_readFile (p : Path) : Settled (readFile p) := by
  refine .bind (.read _) fun text => ?_
  cases text with
  | ok text => exact .pure text
  | error cause => exact .fail Failure.not_refusal_unreadable

theorem settled_withoutNul (text : String) : Settled (withoutNul text) := by
  unfold withoutNul
  extract_lets before
  split
  · exact .fail Failure.not_refusal_engine
  · exact .pure text

theorem settled_dirname (realm : RealmRef) (module : Ref) : Settled (dirname realm module) := by
  refine .bind (.bind (.bind (settled_script _) fun v => .bind (.read _) fun text => ?_)
    fun _ => .pure _) fun _ => .pure _
  cases text with
  | ok text => exact .pure text
  | error text => exact .fail Failure.not_refusal_engine

theorem settled_copyKeys (source target : RealmRef) (ks : List Script.Key) :
    Settled (Sandbox.copyKeys source target ks) := by
  induction ks with
  | nil => exact .pure ()
  | cons k rest ih =>
    refine .bind ?_ fun _ => ih
    unfold Sandbox.copyKey
    split
    · exact .fail Failure.not_refusal_engine
    · exact settled_script _

theorem settled_requireOf (realm : RealmRef) (module : Ref) :
    Settled (Sandbox.requireOf realm module) := by
  refine .bind (settled_script _) fun v => .bind (.read _) fun callable => ?_
  split
  · exact .pure v
  · exact .bind (.read _) fun _ => .fail Failure.not_refusal_engine

theorem settled_bindName (realm : RealmRef) (name : String) (v : Value) :
    Settled (Sandbox.bindName realm name v) :=
  .bind (settled_script _) fun _ => settled_script _

theorem settled_bindModule (caller realm : RealmRef) (output : Path) (module : Ref) :
    Settled (Sandbox.bindModule caller realm output module) := by
  refine .bind (settled_requireOf _ _) fun _ => .bind (settled_bindName _ _ _) fun _ => ?_
  refine .bind (settled_script _) fun _ => .bind (settled_bindName _ _ _) fun _ => ?_
  refine .bind (settled_bindName _ _ _) fun _ => .bind (settled_dirname _ _) fun _ => ?_
  refine .bind (settled_bindName _ _ _) fun _ => .bind (settled_bindName _ _ _) fun _ => ?_
  exact .bind (settled_script _) fun _ => settled_bindName _ _ _

/-- Whatever a module does, running it does not end with a refusal. -/
theorem settled_run (caller : RealmRef) (output : Path) (module : Ref) :
    Settled (Sandbox.run caller output module) := by
  refine .bind (settled_readFile output) fun text => .bind ?_ fun realm => ?_
  · refine .bind (settled_script _) fun _ => .bind (settled_script _) fun ks => ?_
    refine .bind (settled_copyKeys _ _ ks) fun _ => ?_
    exact .bind (settled_bindModule _ _ _ _) fun _ => .pure _
  · exact .bind (settled_withoutNul text) fun _ => settled_script _

theorem settled_finish (number : Nat) (realm : RealmRef) (module : Ref) (s o : Path) :
    Settled (Hook.finish number realm module s o) :=
  .bind (settled_run realm o module) fun _ _ => .done

end Load

open Recorded in
/-- A dialogue that does not end with a refusal does not come to one, whatever is answered. -/
theorem Load.Unrefused.not_refusal {α : Type} {part : Part} {f : Answerer}
    {x : Talk (Except Failure α × Workspace)} (hx : Unrefused x) {h : Host} {e : Failure}
    (he : (follow part f x h).result = .error e) : ¬ e.Refusal := by
  induction hx generalizing h with
  | done => cases he
  | failed hnot =>
    cases he
    exact hnot
  | ask _ ih => exact ih _ _ he

/-! ## Dispatches -/

namespace Dispatch

variable {d : Dispatch} {number : Nat} {k : Hook}

/-- The dispatch fails because a hook cannot tell whether a source has changed. -/
def Refuses (d : Dispatch) : Prop := ∃ e, d.record.result = .error e ∧ e.Refusal

/-- The hook of a number hands an output over to the sandbox, which runs it as the body of the
module. -/
def HandsOver (d : Dispatch) (number : Nat) (o : Path) : Prop :=
  ∃ k k' w', Hook.at? d.before.workspace number = some k ∧
    k.choose d.path d.before.workspace.world = .ok (.run o, k', w') ∧
    d.talk = Hook.finish number d.realm d.module d.path o
      (Hook.starting number d.before.workspace k' w' o)

/-- What a dispatch of the handler of a hook comes to, by what becomes of the source. -/
structure Fares (d : Dispatch) (number : Nat) (f : Fate) : Prop where
  refused : d.Refuses ↔ f = .refused
  executed : (∃ o, d.HandsOver number o) ↔ f.executes

/-- A hook that has chosen no output hands none over. -/
theorem not_handsOver (hk : Hook.at? d.before.workspace number = some k)
    (hc : ∀ o k' w', k.choose d.path d.before.workspace.world ≠ .ok (.run o, k', w')) :
    ¬ ∃ o, d.HandsOver number o := by
  rintro ⟨o, k₁, k', w', hk₁, hc₁, -⟩
  cases hk₁.symm.trans hk
  exact hc o k' w' hc₁

/-- The handler of a hook serves the path of the module. -/
theorem talk_of_handler (hd : d.handler = Hook.handler number)
    (hfile : d.before.workspace.heap.Holds d.module (Script.key "filename") (.text d.path.text)) :
    d.talk = Hook.serve number d.realm d.module d.path d.before.workspace := by
  rw [talk, hd, Hook.handler_eq, Load.bind_of_done (filename_of_holds_path hfile)]

theorem fares (hd : d.handler = Hook.handler number)
    (hfile : d.before.workspace.heap.Holds d.module (Script.key "filename") (.text d.path.text))
    (hk : Hook.at? d.before.workspace number = some k) :
    d.Fares number (k.fate d.path d.before.workspace.world) := by
  have htalk := talk_of_handler hd hfile
  have hrecord : d.record.result = (Recorded.follow .code (Recorded.answerWithin d.depth) d.talk
    d.before).result := rfl
  cases k.chooses d.path d.before.workspace.world with
  | @refuses cause hc hf =>
    rw [Hook.serve_of_error hk hc] at htalk
    refine ⟨iff_of_true ⟨_, ?_, d.path, cause, rfl⟩ hf, iff_of_false (not_handsOver hk ?_) ?_⟩
    · rw [hrecord, htalk]
      rfl
    · simp [hc]
    · simp [hf, Fate.executes]
  | @skips k' w' hc hf =>
    rw [Hook.serve_of_skip hk hc] at htalk
    refine ⟨iff_of_false ?_ (by simp [hf]), iff_of_false (not_handsOver hk ?_) ?_⟩
    · rintro ⟨e, he, -⟩
      rw [hrecord, htalk] at he
      cases he
    · simp [hc]
    · simp [hf, Fate.executes]
  | @runs k' w' o hc hf =>
    rw [Hook.serve_of_choose hk hc] at htalk
    refine ⟨iff_of_false ?_ ?_, iff_of_true ⟨o, k, k', w', hk, hc, htalk⟩ hf⟩
    · rintro ⟨e, he, hrefusal⟩
      rw [hrecord, htalk] at he
      exact (Load.settled_finish number d.realm d.module d.path o _).not_refusal he hrefusal
    · intro hrefused
      rw [hrefused] at hf
      cases hf

end Dispatch
end LoadHook
