import LoadHook.Proofs.Journal.Basic

/-!
# Sessions

A session is a list of things done with a host from outside: handlers are registered, hooks are
added, modules are loaded and forgotten, code is evaluated, and the world around the host is
changed. What a recorded session comes to is what the session comes to.
-/
namespace LoadHook

open Script (Value RealmRef Ref)

namespace Recorded

variable {α : Type} {f : Answerer} {g : Host.Answerer}

/-! ## Forgetting the journal -/

/-- A recorded answerer does what an answerer does. -/
def Tells (f : Answerer) (g : Host.Answerer) : Prop := ∀ q h, (f q h).outcome = g q h

theorem outcome_follow (hfg : Tells f g) (part : Part)
    (x : Talk (Except Failure α × Workspace)) (h : Host) :
    (follow part f x h).outcome =
      (let ((r, w), e) := x.run (fun q w e =>
        let (a, h) := g q ⟨e, w⟩
        (a, h.workspace, h.registry)) h.registry
      (r, ⟨e, w⟩)) := by
  induction x generalizing h with
  | done a => rfl
  | ask q w next ih =>
    have ha : g q ⟨h.registry, w⟩ =
        ((f q ⟨h.registry, w⟩).result, (f q ⟨h.registry, w⟩).host) := (hfg q _).symm
    simp only [follow, Record.outcome_after, Dialogue.run, ha, ih]

theorem outcome_perform (hfg : Tells f g) (part : Part) (x : Load α) (h : Host) :
    (perform part f x h).outcome = h.perform g x :=
  outcome_follow hfg part (x h.workspace) h

theorem outcome_populate (hfg : Tells f g) (realm : RealmRef) (p : Path) (module : Ref)
    (h : Host) : (populate f realm p module h).outcome = h.populate g realm p module := by
  have hh := outcome_perform hfg .code (h.registry.handlerFor p realm module) h
  simp only [populate, Host.populate, ← hh]
  generalize perform .code f (h.registry.handlerFor p realm module) h = handled
  obtain ⟨r, h₁, j⟩ := handled
  cases r with
  | error e => rfl
  | ok _ =>
    have hm := outcome_perform hfg .marking (Load.setProperty realm module "loaded" (.bool true)) h₁
    simp only [Record.outcome, ← hm]
    generalize perform .marking f (Load.setProperty realm module "loaded" (.bool true)) h₁ = marked
    obtain ⟨r, h₂, k⟩ := marked
    cases r <;> rfl

theorem outcome_loadNew (hfg : Tells f g) (realm : RealmRef) (p : Path) (h : Host) :
    (loadNew f realm p h).outcome = h.loadNew g realm p := by
  have hm := outcome_perform hfg .making (Host.newModule realm p) h
  simp only [loadNew, Host.loadNew, ← hm]
  generalize perform .making f (Host.newModule realm p) h = made
  obtain ⟨r, h₁, j⟩ := made
  cases r with
  | error e => rfl
  | ok module => exact outcome_populate hfg ..

variable {loader : Loader} {loader' : Host.Loader}

theorem outcome_requireWith (hl : ∀ realm p h, (loader realm p h).outcome = loader' realm p h)
    (hfg : Tells f g) (q : Requirement) (h : Host) :
    (requireWith loader f q h).outcome = Host.requireWith loader' g q h := by
  simp only [requireWith, Host.requireWith]
  cases h.resolve q.specifier q.dir with
  | error e => rfl
  | ok p =>
    simp only [← hl]
    generalize loader q.realm p h = loaded
    obtain ⟨r, h₁, j⟩ := loaded
    cases r with
    | error e => rfl
    | ok module => exact outcome_perform hfg .code (Load.exports q.realm module) h₁

theorem outcome_answerWith (hl : ∀ realm p h, (loader realm p h).outcome = loader' realm p h)
    (hfg : Tells f g) : Tells (answerWith loader f) (Host.answerWith loader' g) := by
  intro q h
  simp only [answerWith, Host.answerWith, ← outcome_requireWith hl hfg]
  generalize requireWith loader f q h = required
  obtain ⟨r, h₁, j⟩ := required
  cases r with
  | ok v => rfl
  | error e =>
    simp only [Record.outcome, ← outcome_perform hfg .throwing]
    generalize perform .throwing f (Load.throwable q.realm e) h₁ = thrown
    obtain ⟨r, h₂, k⟩ := thrown
    cases r <;> rfl

theorem outcome_within (depth : Nat) :
    (∀ realm p h, (loadWithin depth realm p h).outcome = Host.loadWithin depth realm p h) ∧
      Tells (answerWithin depth) (Host.answerWithin depth) := by
  induction depth with
  | zero =>
    refine ⟨fun realm p h => ?_, fun q h => ?_⟩
    · rw [loadWithin, Host.loadWithin]
      cases h.registry.modules.get? p <;> rfl
    · rw [answerWithin, Host.answerWithin]
      rfl
  | succ n ih =>
    obtain ⟨hl, ha⟩ := ih
    refine ⟨fun realm p h => ?_, ?_⟩
    · rw [loadWithin, Host.loadWithin]
      cases h.registry.modules.get? p with
      | some module => rfl
      | none => exact outcome_loadNew ha realm p h
    · intro q h
      rw [answerWithin, Host.answerWithin]
      exact outcome_answerWith hl ha q h

/-- A recorded load is the load. -/
theorem outcome_load (realm : RealmRef) (p : Path) (h : Host) :
    (load realm p h).outcome = Host.load realm p h :=
  (outcome_within Host.depthLimit).1 realm p h

/-- A recorded answer is the answer. -/
theorem tells_answer : Tells answer Host.answer := (outcome_within Host.depthLimit).2

/-! ## Entry points -/

/-- Turns a failure into the error that it is outside of scripts. -/
def conclude (r : Record (Except Failure α)) : Record (Except LoadError α) :=
  match r.result with
  | .ok a => ⟨.ok a, r.host, r.journal⟩
  | .error e =>
    let seen := perform .code answer (Load.caught Host.homeRealm e) r.host
    ⟨.error (match seen.result with
      | .ok e => e
      | .error _ => .exception "" none), seen.host, r.journal ++ seen.journal⟩

/-- Loads the module of an absolute path. -/
def enter (p : Path) (h : Host) : Record (Except LoadError Ref) :=
  conclude (load Host.homeRealm p h)

/-- Loads a module as an entry. -/
def runMain (p : Path) (h : Host) : Record (Except LoadError Unit) :=
  match Host.absolute h.workspace.world.tree p with
  | .error cause => ⟨.error (.unreadable p cause), h, []⟩
  | .ok p =>
    let entered := enter p h
    ⟨entered.result.map fun _ => (), entered.host, entered.journal⟩

/-- Loads a module and reads its exports as JSON. -/
def loadExports (p : Path) (h : Host) : Record (Except LoadError Json) :=
  match Host.absolute h.workspace.world.tree p with
  | .error cause => ⟨.error (.unreadable p cause), h, []⟩
  | .ok p =>
    let entered := enter p h
    match entered.result with
    | .error e => ⟨.error e, entered.host, entered.journal⟩
    | .ok module =>
      let shown := conclude (perform .code answer (Host.exportsText module) entered.host)
      ⟨shown.result.bind Host.readExports, shown.host, entered.journal ++ shown.journal⟩

/-- Forgets a module. -/
def evict (p : Path) (h : Host) : Record Bool :=
  match Host.absolute h.workspace.world.tree p with
  | .error _ => ⟨false, h, []⟩
  | .ok p => .single (.evicted p) (h.registry.isLoaded p) (h.withoutModule p)

/-- Forgets all modules. -/
def clear (h : Host) : Record Unit := .single .cleared () h.clear

/-- Evaluates code and reads its value. -/
def execute (code : String) (form : Form) (h : Host) : Record (Except LoadError Json) :=
  conclude (perform .code answer (Host.evaluate code form) h)

theorem outcome_conclude (r : Record (Except Failure α)) :
    (conclude r).outcome = Host.conclude r.outcome := by
  obtain ⟨r, h, j⟩ := r
  cases r with
  | ok a => rfl
  | error e =>
    have hs := outcome_perform tells_answer .code (Load.caught Host.homeRealm e) h
    simp only [conclude, Host.conclude, Record.outcome] at hs ⊢
    rw [← hs]
    cases (perform .code answer (Load.caught Host.homeRealm e) h).result <;> rfl

theorem outcome_enter (p : Path) (h : Host) : (enter p h).outcome = h.enter p := by
  rw [enter, Host.enter, outcome_conclude, outcome_load]

theorem outcome_runMain (p : Path) (h : Host) : (runMain p h).outcome = h.runMain p := by
  simp only [runMain, Host.runMain]
  cases Host.absolute h.workspace.world.tree p with
  | error cause => rfl
  | ok p => simp only [← outcome_enter]; rfl

theorem outcome_loadExports (p : Path) (h : Host) :
    (loadExports p h).outcome = h.loadExports p := by
  simp only [loadExports, Host.loadExports]
  cases Host.absolute h.workspace.world.tree p with
  | error cause => rfl
  | ok p =>
    simp only [← outcome_enter]
    generalize enter p h = entered
    obtain ⟨r, h₁, j⟩ := entered
    cases r with
    | error e => rfl
    | ok module =>
      simp only [Record.outcome]
      rw [← outcome_perform tells_answer .code, ← outcome_conclude]
      rfl

theorem outcome_evict (p : Path) (h : Host) : (evict p h).outcome = h.evict p := by
  simp only [evict, Host.evict]
  cases Host.absolute h.workspace.world.tree p <;> rfl

theorem outcome_execute (code : String) (form : Form) (h : Host) :
    (execute code form h).outcome = h.execute code form := by
  rw [execute, Host.execute, outcome_conclude, outcome_perform tells_answer]

theorem host_runMain (p : Path) (h : Host) : (runMain p h).host = (h.runMain p).2 :=
  congrArg Prod.snd (outcome_runMain p h)

theorem host_loadExports (p : Path) (h : Host) : (loadExports p h).host = (h.loadExports p).2 :=
  congrArg Prod.snd (outcome_loadExports p h)

theorem host_evict (p : Path) (h : Host) : (evict p h).host = (h.evict p).2 :=
  congrArg Prod.snd (outcome_evict p h)

theorem host_execute (code : String) (form : Form) (h : Host) :
    (execute code form h).host = (h.execute code form).2 :=
  congrArg Prod.snd (outcome_execute code form h)

end Recorded

/-! ## Sessions -/

/-- Something done with a host from outside. -/
inductive Operation where
  | register (extension : String) (f : Handler)
  | addHook (k : Hook)
  | runMain (p : Path)
  | loadExports (p : Path)
  | execute (code : String) (form : Form)
  | evict (p : Path)
  | clear
  /-- Something outside of the host changes the world. -/
  | edit (f : World → World)

namespace Operation

/-- The host after something is done with it. -/
def run : Operation → Host → Host
  | .register extension f, h => h.register extension f
  | .addHook k, h => (h.addHook k).2
  | .runMain p, h => (h.runMain p).2
  | .loadExports p, h => (h.loadExports p).2
  | .execute code form, h => (h.execute code form).2
  | .evict p, h => (h.evict p).2
  | .clear, h => h.clear
  | .edit f, h => h.withWorld (f h.workspace.world)

/-- The moments of something that is done with a host. -/
def journal : Operation → Host → Journal
  | .runMain p, h => (Recorded.runMain p h).journal
  | .loadExports p, h => (Recorded.loadExports p h).journal
  | .execute code form, h => (Recorded.execute code form h).journal
  | .evict p, h => (Recorded.evict p h).journal
  | .clear, h => (Recorded.clear h).journal
  | .register _ _, _ | .addHook _, _ | .edit _, _ => []

/-- A handler is registered or a hook is added. -/
def Prepares : Operation → Prop
  | .register _ _ | .addHook _ => True
  | _ => False

theorem Prepares.run {o : Operation} (ho : o.Prepares) (h : Host) :
    (o.run h).registry.modules = h.registry.modules ∧
      (o.run h).workspace.heap = h.workspace.heap ∧
      (o.run h).workspace.world = h.workspace.world ∧ o.journal h = [] := by
  cases o with
  | register extension f => exact ⟨rfl, rfl, rfl, rfl⟩
  | addHook k => exact ⟨rfl, rfl, rfl, rfl⟩
  | _ => exact ho.elim

end Operation

/-- Things done with a host from outside, in order. -/
abbrev Session := List Operation

namespace Session

/-- The host after a session. -/
def run : Session → Host → Host
  | [], h => h
  | o :: rest, h => run rest (o.run h)

/-- The moments of a session. -/
def journal : Session → Host → Journal
  | [], _ => []
  | o :: rest, h => o.journal h ++ journal rest (o.run h)

theorem run_append (ops more : Session) (h : Host) :
    (ops ++ more).run h = more.run (ops.run h) := by
  induction ops generalizing h with
  | nil => rfl
  | cons o rest ih => exact ih (o.run h)

theorem journal_append (ops more : Session) (h : Host) :
    (ops ++ more).journal h = ops.journal h ++ more.journal (ops.run h) := by
  induction ops generalizing h with
  | nil => rfl
  | cons o rest ih => simp only [List.cons_append, journal, run, ih, List.append_assoc]

/-- In preparation nothing is loaded, and nothing is done to the world or to the heap. -/
theorem prepared (setup : Session) (hsetup : ∀ o ∈ setup, o.Prepares) (h : Host) :
    (setup.run h).registry.modules = h.registry.modules ∧
      (setup.run h).workspace.heap = h.workspace.heap ∧
      (setup.run h).workspace.world = h.workspace.world ∧ setup.journal h = [] := by
  induction setup generalizing h with
  | nil => exact ⟨rfl, rfl, rfl, rfl⟩
  | cons o rest ih =>
    obtain ⟨hmodules, hheap, hworld, hjournal⟩ := (hsetup o List.mem_cons_self).run h
    obtain ⟨hmodules', hheap', hworld', hjournal'⟩ :=
      ih (fun o ho => hsetup o (List.mem_cons_of_mem _ ho)) (o.run h)
    exact ⟨hmodules'.trans hmodules, hheap'.trans hheap, hworld'.trans hworld,
      by rw [journal, hjournal, hjournal', List.append_nil]⟩

theorem journal_of_prepared {setup : Session} (hsetup : ∀ o ∈ setup, o.Prepares)
    (history : Session) (h : Host) :
    (setup ++ history).journal h = history.journal (setup.run h) := by
  rw [journal_append, (setup.prepared hsetup h).2.2.2, List.nil_append]

end Session
end LoadHook
