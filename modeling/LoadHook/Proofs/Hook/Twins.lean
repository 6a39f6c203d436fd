import LoadHook.Proofs.Hook.Toggle
import LoadHook.Proofs.Journal.Session
import LoadHook.Proofs.Module.Composed
import LoadHook.Proofs.Registry.Registration

/-!
# Two runs

Two hosts in worlds that lie beside each other, with the same scripts, hooks and modules, stay so
whatever is loaded. A step that is composed of simple ones asks for the same in both, a hook
chooses the same, and so every load comes to the same.
-/
namespace LoadHook

open Script (Value RealmRef Ref Eval)

/-- The same scripts and hooks in worlds that are beside each other. -/
structure Workspace.Beside (var : String) (w w' : Workspace) : Prop where
  world : w.world.Beside var w'.world
  heap : w'.heap = w.heap
  hooks : w'.hooks = w.hooks
  heedless : ∀ (number : Nat) (k : Hook), Hook.at? w number = some k → k.toolchain.Heedless var

namespace Workspace.Beside

variable {var : String} {w w' : Workspace}

theorem bare (h : w.Beside var w') : w'.bare = w.bare := by
  rw [Workspace.bare, Workspace.bare, h.world.tree, h.heap]

theorem at? (h : w.Beside var w') (number : Nat) : Hook.at? w' number = Hook.at? w number := by
  rw [Hook.at?, Hook.at?, h.hooks]

theorem withHeap (h : w.Beside var w') (heap : Script.Heap) :
    Workspace.Beside var { w with heap := heap } { w' with heap := heap } :=
  ⟨h.world, rfl, h.hooks, h.heedless⟩

theorem withWorld (h : w.Beside var w') {v v' : World} (hv : v.Beside var v') :
    Workspace.Beside var { w with world := v } { w' with world := v' } :=
  ⟨hv, h.heap, h.hooks, h.heedless⟩

/-- A hook may change in both. -/
theorem put (h : w.Beside var w') (number : Nat) {k : Hook} (hk : k.toolchain.Heedless var) :
    (Hook.put w number k).Beside var (Hook.put w' number k) where
  world := h.world
  heap := h.heap
  hooks := congrArg (fun hooks : Array Hook => hooks.modify number fun _ => k) h.hooks
  heedless m c hc := by
    rw [Hook.at?, Hook.put, Array.getElem?_modify] at hc
    split at hc
    · obtain ⟨-, -, rfl⟩ := Option.map_eq_some_iff.mp hc
      exact hk
    · exact h.heedless m c hc

end Workspace.Beside

namespace Load

variable {α β : Type} {var : String} {w w' : Workspace}

/-- Two dialogues that ask for the same and come to the same, however they are answered. -/
inductive Parallel (var : String) : Talk (Except Failure α × Workspace) →
    Talk (Except Failure α × Workspace) → Prop
  | done {r : Except Failure α} {w w' : Workspace} : w.Beside var w' →
      Parallel var (.done (r, w)) (.done (r, w'))
  | ask {q : Requirement} {w w' : Workspace}
      {next next' : Except Value Value → Workspace → Talk (Except Failure α × Workspace)} :
      w.Beside var w' → (∀ a v v', v.Beside var v' → Parallel var (next a v) (next' a v')) →
      Parallel var (.ask q w next) (.ask q w' next')

/-- A step that comes to the same in two worlds that are beside each other. -/
def Heedless (var : String) (x : Load α) : Prop :=
  ∀ w w', w.Beside var w' → Parallel var (x w) (x w')

namespace Heedless

variable {x : Load α} {f : α → Load β}

theorem bind (hx : Heedless var x) (hf : ∀ a, Heedless var (f a)) : Heedless var (x >>= f) := by
  intro w w' h
  have hx := hx w w' h
  change Parallel var (Load.bind x f w) (Load.bind x f w')
  rw [Load.bind, Load.bind]
  generalize x w = d at hx
  generalize x w' = d' at hx
  induction hx with
  | @done r _ _ h =>
    cases r with
    | ok a => exact hf a _ _ h
    | error e => exact .done h
  | ask h _ ih => exact .ask h ih

theorem outcome (hx : Heedless var x) : Heedless var (Load.outcome x) := by
  intro w w' h
  have hx := hx w w' h
  rw [Load.outcome, Load.outcome]
  generalize x w = d at hx
  generalize x w' = d' at hx
  induction hx with
  | done h => exact .done h
  | ask h _ ih => exact .ask h ih

end Heedless

/-- Scripts see neither the environment nor the log. -/
theorem parallel_ofRun (x : Script.Run (Except Script.Abrupt α × Script.Heap))
    (h : w.Beside var w') : Parallel var (ofRun w x) (ofRun w' x) := by
  induction x generalizing w w' with
  | done r => exact .done (h.withHeap r.2)
  | ask q heap next ih =>
    cases q with
    | print level text =>
      exact ih _ _ ((h.withWorld (h.world.report level .console text text)).withHeap heap)
    | require specifier dir realm =>
      refine .ask (h.withHeap heap) fun a v v' hv => ?_
      rw [hv.heap]
      exact ih a v.heap hv

/-- A step that is composed of simple ones sees neither the environment nor the log. -/
theorem Composed.heedless {x : Load α} (hx : Composed x) : Heedless var x := by
  induction hx with
  | pure a => exact fun _ _ h => .done h
  | fail e => exact fun _ _ h => .done h
  | read bare =>
    intro w w' h
    rw [Load.read, Load.read, ← bare w, ← bare w', h.bare]
    exact .done h
  | report level source text =>
    exact fun _ _ h => .done (h.withWorld (h.world.report level source text text))
  | script x =>
    intro w w' h
    rw [Load.script, Load.script, h.heap]
    exact parallel_ofRun _ h
  | bind _ _ ihx ihf => exact ihx.bind ihf
  | outcome _ ih => exact ih.outcome

end Load

/-! ## Hooks -/

namespace Hook

variable {var : String} {k : Hook} {w w' : World}

/-- A compilation leads to the same choice and the same hook. -/
theorem beside_compile (hk : k.toolchain.Heedless var) (h : w.Beside var w') (source : Path) :
    (k.compile source w').1 = (k.compile source w).1 ∧
      (k.compile source w').2.1 = (k.compile source w).2.1 ∧
      (k.compile source w).2.2.Beside var (k.compile source w').2.2 := by
  obtain ⟨hresult, hruns, hworld⟩ := beside_compileFile hk h k.runs source
    k.settings.configFileName (k.settings.debugEnabled w) (k.settings.debugEnabled w')
  simp only [compile, hresult, hruns]
  cases (compileFile k.toolchain k.runs source k.settings.configFileName
    (k.settings.debugEnabled w) w).result with
  | ok output => exact ⟨rfl, rfl, hworld⟩
  | error e => exact ⟨rfl, rfl, hworld.report _ _ _ _⟩

theorem toolchain_compile (k : Hook) (source : Path) (w : World) :
    (k.compile source w).2.1.toolchain = k.toolchain := by
  simp only [compile]
  split <;> rfl

/-- What two runs of a hook's choice come to. -/
inductive Agree (var : String) (k : Hook) : Except Cause (Choice × Hook × World) →
    Except Cause (Choice × Hook × World) → Prop
  | failed (cause : Cause) : Agree var k (.error cause) (.error cause)
  | chosen {c : Choice} {k' : Hook} {v v' : World} (toolchain : k'.toolchain = k.toolchain)
      (world : v.Beside var v') : Agree var k (.ok (c, k', v)) (.ok (c, k', v'))

theorem agree_compile (hk : k.toolchain.Heedless var) (h : w.Beside var w') (source : Path) :
    Agree var k (.ok (k.compile source w)) (.ok (k.compile source w')) := by
  obtain ⟨hchoice, hhook, hworld⟩ := beside_compile hk h source
  have hpair : k.compile source w' =
      ((k.compile source w).1, (k.compile source w).2.1, (k.compile source w').2.2) := by
    rw [← hchoice, ← hhook]
  rw [hpair]
  exact .chosen (toolchain_compile k source w) hworld

/-- A hook chooses the same in worlds that are beside each other. -/
theorem agree_choose (hk : k.toolchain.Heedless var) (h : w.Beside var w') (source : Path) :
    Agree var k (k.choose source w) (k.choose source w') := by
  simp only [choose, h.tree]
  cases k.cache.get? source with
  | none => exact agree_compile hk h source
  | some output =>
    dsimp only
    cases w.tree.isModified source output with
    | error cause => exact .failed cause
    | ok modified =>
      cases modified with
      | true => exact agree_compile hk h source
      | false => exact .chosen rfl (h.report _ _ _ _)

theorem heedless_chooseFor (number : Nat) (source : Path) :
    Load.Heedless var (chooseFor number source) := by
  intro w w' h
  rw [chooseFor, chooseFor, h.at?]
  cases hk : at? w number with
  | none => exact .done h
  | some k =>
    have hheedless := h.heedless number k hk
    have hchoice := agree_choose hheedless h.world source
    dsimp only
    generalize k.choose source w.world = chosen at hchoice
    generalize k.choose source w'.world = chosen' at hchoice
    cases hchoice with
    | failed cause => exact .done h
    | chosen htoolchain hworld =>
      exact .done ((h.withWorld hworld).put number (htoolchain ▸ hheedless))

theorem heedless_rememberFor (number : Nat) (source output : Path) :
    Load.Heedless var (rememberFor number source output) := by
  intro w w' h
  rw [rememberFor, Load.change, Load.change, h.at?]
  cases hk : at? w number with
  | none => exact .done h
  | some k => exact .done (h.put number (h.heedless number k hk))

/-- Loading through a hook is heedless. -/
theorem heedless_handler (number : Nat) (realm : RealmRef) (module : Ref) :
    Load.Heedless var (handler number realm module) := by
  refine (Load.composed_filename realm module).heedless.bind fun source => ?_
  refine (heedless_chooseFor number source).bind fun choice => ?_
  cases choice with
  | skip => exact (Load.Composed.pure ()).heedless
  | run output =>
    refine (Load.Composed.report _ _ _).heedless.bind fun _ => ?_
    exact (Load.composed_run _ _ _).heedless.bind fun _ => heedless_rememberFor _ _ _

end Hook

/-! ## Hosts -/

/-- A handler that comes to the same in worlds that are beside each other. -/
def Handler.Heedless (var : String) (f : Handler) : Prop :=
  ∀ realm module, Load.Heedless var (f realm module)

/-- The same modules, scripts and hooks in worlds that are beside each other. -/
structure Host.Beside (var : String) (h h' : Host) : Prop where
  workspace : h.workspace.Beside var h'.workspace
  registry : h'.registry = h.registry
  handlers : ∀ e f, (e, f) ∈ h.registry.handlers → f.Heedless var

/-- Two runs of something that come to the same. -/
def Host.Twin {ρ : Type} (var : String) (x x' : ρ × Host) : Prop :=
  x'.1 = x.1 ∧ x.2.Beside var x'.2

/-- Requirements are answered alike in worlds that are beside each other. -/
def Host.Answerer.Heedless (var : String) (g : Host.Answerer) : Prop :=
  ∀ q h h', h.Beside var h' → Host.Twin var (g q h) (g q h')

namespace Host

variable {α : Type} {var : String} {h h' : Host} {g : Answerer}

theorem heedless_handlerFor (hh : h.Beside var h') (p : Path) :
    (h.registry.handlerFor p).Heedless var := by
  rcases h.registry.handlerFor_cases p with ⟨e, he⟩ | he
  · exact hh.handlers e _ he
  · rw [he]
    exact fun realm module => (Load.composed_scriptHandler realm module).heedless

theorem twin_perform (hg : g.Heedless var) {x : Load α} (hx : Load.Heedless var x)
    (hh : h.Beside var h') : Twin var (h.perform g x) (h'.perform g x) := by
  have hx := hx _ _ hh.workspace
  rw [perform, perform, hh.registry]
  have hhandlers := hh.handlers
  clear hh
  generalize x h.workspace = d at hx
  generalize x h'.workspace = d' at hx
  generalize h.registry = registry at hhandlers
  induction hx generalizing registry with
  | done hw => exact ⟨rfl, hw, rfl, hhandlers⟩
  | @ask q w w' next next' hw _ ih =>
    have hasked : Host.Beside var ⟨registry, w⟩ ⟨registry, w'⟩ := ⟨hw, rfl, hhandlers⟩
    obtain ⟨hanswer, hafter⟩ := hg q _ _ hasked
    simp only [Dialogue.run, hanswer, hafter.registry]
    exact ih _ _ _ hafter.workspace _ hafter.handlers

theorem twin_populate (hg : g.Heedless var) (hh : h.Beside var h') (realm : RealmRef) (p : Path)
    (module : Ref) : Twin var (h.populate g realm p module) (h'.populate g realm p module) := by
  have hhandled := twin_perform hg (heedless_handlerFor hh p realm module) hh
  rw [populate, populate, hh.registry]
  generalize h.perform g (h.registry.handlerFor p realm module) = handled at hhandled
  generalize h'.perform g (h.registry.handlerFor p realm module) = handled' at hhandled
  obtain ⟨r, h₁⟩ := handled
  obtain ⟨r', h₁'⟩ := handled'
  obtain ⟨rfl : r' = r, hh₁⟩ := hhandled
  cases r' with
  | error e =>
    exact ⟨rfl, hh₁.workspace, congrArg (fun g : Registry => g.erase p) hh₁.registry, hh₁.handlers⟩
  | ok _ =>
    have hmarked := twin_perform hg
      (Load.composed_setProperty realm module "loaded" (.bool true)).heedless hh₁
    dsimp only
    generalize h₁.perform g (Load.setProperty realm module "loaded" _) = marked at hmarked
    generalize h₁'.perform g (Load.setProperty realm module "loaded" _) = marked' at hmarked
    obtain ⟨r, h₂⟩ := marked
    obtain ⟨r', h₂'⟩ := marked'
    obtain ⟨rfl : r' = r, hh₂⟩ := hmarked
    cases r' with
    | error e => exact ⟨rfl, hh₂⟩
    | ok _ => exact ⟨rfl, hh₂⟩

theorem twin_loadNew (hg : g.Heedless var) (hh : h.Beside var h') (realm : RealmRef) (p : Path) :
    Twin var (h.loadNew g realm p) (h'.loadNew g realm p) := by
  have hmade := twin_perform hg (Load.composed_newModule realm p).heedless hh
  rw [loadNew, loadNew]
  generalize h.perform g (newModule realm p) = made at hmade
  generalize h'.perform g (newModule realm p) = made' at hmade
  obtain ⟨r, h₁⟩ := made
  obtain ⟨r', h₁'⟩ := made'
  obtain ⟨rfl : r' = r, hh₁⟩ := hmade
  cases r' with
  | error e => exact ⟨rfl, hh₁⟩
  | ok module =>
    have hregistered : Host.Beside var { h₁ with registry := h₁.registry.insert p module }
        { h₁' with registry := h₁'.registry.insert p module } :=
      ⟨hh₁.workspace, congrArg (fun g : Registry => g.insert p module) hh₁.registry, hh₁.handlers⟩
    exact twin_populate hg hregistered realm p module

theorem twin_requireWith {load : Loader} (hload : ∀ realm p h h', h.Beside var h' →
      Twin var (load realm p h) (load realm p h')) (hg : g.Heedless var) (q : Requirement)
    (hh : h.Beside var h') : Twin var (requireWith load g q h) (requireWith load g q h') := by
  rw [requireWith, requireWith, resolve, resolve, hh.workspace.world.tree, hh.registry]
  split
  · exact ⟨rfl, hh⟩
  · next p hp =>
    have hloaded := hload q.realm p h h' hh
    generalize load q.realm p h = loaded at hloaded
    generalize load q.realm p h' = loaded' at hloaded
    obtain ⟨r, h₁⟩ := loaded
    obtain ⟨r', h₁'⟩ := loaded'
    obtain ⟨rfl : r' = r, hh₁⟩ := hloaded
    cases r' with
    | error e => exact ⟨rfl, hh₁⟩
    | ok module => exact twin_perform hg (Load.Composed.script _).heedless hh₁

theorem heedless_answerWith {load : Loader} (hload : ∀ realm p h h', h.Beside var h' →
      Twin var (load realm p h) (load realm p h')) (hg : g.Heedless var) :
    (answerWith load g).Heedless var := by
  intro q h h' hh
  have hrequired := twin_requireWith hload hg q hh
  rw [answerWith, answerWith]
  generalize requireWith load g q h = required at hrequired
  generalize requireWith load g q h' = required' at hrequired
  obtain ⟨r, h₁⟩ := required
  obtain ⟨r', h₁'⟩ := required'
  obtain ⟨rfl : r' = r, hh₁⟩ := hrequired
  cases r' with
  | ok v => exact ⟨rfl, hh₁⟩
  | error e =>
    have hthrown := twin_perform hg (Load.composed_throwable q.realm e).heedless hh₁
    dsimp only
    generalize h₁.perform g (Load.throwable q.realm e) = thrown at hthrown
    generalize h₁'.perform g (Load.throwable q.realm e) = thrown' at hthrown
    obtain ⟨r, h₂⟩ := thrown
    obtain ⟨r', h₂'⟩ := thrown'
    obtain ⟨rfl : r' = r, hh₂⟩ := hthrown
    cases r' with
    | ok v => exact ⟨rfl, hh₂⟩
    | error e => exact ⟨rfl, hh₂⟩

/-- Loads and answers nested however deep come to the same. -/
theorem twin_within (depth : Nat) :
    (∀ realm p h h', h.Beside var h' →
      Twin var (loadWithin depth realm p h) (loadWithin depth realm p h')) ∧
    (answerWithin depth).Heedless var := by
  induction depth with
  | zero =>
    refine ⟨fun realm p h h' hh => ?_, fun q h h' hh => ?_⟩
    · rw [loadWithin, loadWithin, hh.registry]
      cases h.registry.modules.get? p <;> exact ⟨rfl, hh⟩
    · rw [answerWithin]
      exact ⟨rfl, hh⟩
  | succ n ih =>
    obtain ⟨hload, hanswer⟩ := ih
    refine ⟨fun realm p h h' hh => ?_, ?_⟩
    · rw [loadWithin, loadWithin, hh.registry]
      cases h.registry.modules.get? p with
      | some module => exact ⟨rfl, hh⟩
      | none => exact twin_loadNew hanswer hh realm p
    · intro q h h' hh
      rw [answerWithin]
      exact heedless_answerWith hload hanswer q h h' hh

theorem heedless_answer : answer.Heedless var := (twin_within depthLimit).2

/-! ### Entry points -/

theorem twin_conclude {x x' : Except Failure α × Host} (hx : Twin var x x') :
    Twin var (conclude x) (conclude x') := by
  obtain ⟨r, h⟩ := x
  obtain ⟨r', h'⟩ := x'
  obtain ⟨rfl : r' = r, hh⟩ := hx
  cases r' with
  | ok a => exact ⟨rfl, hh⟩
  | error e =>
    have hcaught := twin_perform heedless_answer (Load.composed_caught homeRealm e).heedless hh
    simp only [conclude]
    generalize h.perform answer (Load.caught homeRealm e) = caught at hcaught
    generalize h'.perform answer (Load.caught homeRealm e) = caught' at hcaught
    obtain ⟨r, h₁⟩ := caught
    obtain ⟨r', h₁'⟩ := caught'
    obtain ⟨rfl : r' = r, hh₁⟩ := hcaught
    cases r' <;> exact ⟨rfl, hh₁⟩

theorem twin_enter (p : Path) (hh : h.Beside var h') : Twin var (h.enter p) (h'.enter p) :=
  twin_conclude ((twin_within depthLimit).1 homeRealm p h h' hh)

theorem twin_runMain (p : Path) (hh : h.Beside var h') : Twin var (h.runMain p) (h'.runMain p) := by
  rw [runMain, runMain, hh.workspace.world.tree]
  split
  · exact ⟨rfl, hh⟩
  · next p _ =>
    obtain ⟨hresult, hentered⟩ := twin_enter p hh
    exact ⟨congrArg (Except.map fun _ => ()) hresult, hentered⟩

theorem twin_loadExports (p : Path) (hh : h.Beside var h') :
    Twin var (h.loadExports p) (h'.loadExports p) := by
  rw [loadExports, loadExports, hh.workspace.world.tree]
  split
  · exact ⟨rfl, hh⟩
  · next p _ =>
    have hentered := twin_enter p hh
    generalize h.enter p = entered at hentered
    generalize h'.enter p = entered' at hentered
    obtain ⟨r, h₁⟩ := entered
    obtain ⟨r', h₁'⟩ := entered'
    obtain ⟨rfl : r' = r, hh₁⟩ := hentered
    cases r' with
    | error e => exact ⟨rfl, hh₁⟩
    | ok module =>
      obtain ⟨hresult, hshown⟩ := twin_conclude (twin_perform heedless_answer
        (Load.composed_exportsText module).heedless hh₁)
      exact ⟨congrArg (Except.bind · readExports) hresult, hshown⟩

theorem twin_evict (p : Path) (hh : h.Beside var h') : Twin var (h.evict p) (h'.evict p) := by
  rw [evict, evict, hh.workspace.world.tree, hh.registry]
  split
  · exact ⟨rfl, hh⟩
  · exact ⟨rfl, hh.workspace, rfl, hh.handlers⟩

theorem twin_execute (code : String) (form : Form) (hh : h.Beside var h') :
    Twin var (h.execute code form) (h'.execute code form) :=
  twin_conclude (twin_perform heedless_answer (Load.composed_evaluate code form).heedless hh)

/-- Hosts that have just been started are beside each other if their worlds are. -/
theorem beside_start {w w' : World} (h : w.Beside var w') : (start w).Beside var (start w') where
  workspace := ⟨h, rfl, rfl, fun _ _ hk => by simp [start, Hook.at?] at hk⟩
  registry := rfl
  handlers _ _ hf realm module := ((Registry.simple_initial hf).composed realm module).heedless

end Host

/-! ## Sessions -/

/-- What is answered to something that is done with a host. -/
inductive Reply where
  | silent
  | number (n : Nat)
  | ran (r : Except LoadError Unit)
  | shown (r : Except LoadError Json)
  | evicted (b : Bool)

namespace Operation

/-- What is answered to something that is done with a host. -/
def reply : Operation → Host → Reply
  | .addHook k, h => .number (h.addHook k).1
  | .runMain p, h => .ran (h.runMain p).1
  | .loadExports p, h => .shown (h.loadExports p).1
  | .execute code form, h => .shown (h.execute code form).1
  | .evict p, h => .evicted (h.evict p).1
  | .register _ _, _ | .clear, _ | .edit _, _ => .silent

/-- The same is done with two hosts, or their worlds are changed so that they stay beside each
other. -/
inductive Beside (var : String) : Operation → Operation → Prop
  | register {e : String} {f : Handler} : f.Heedless var →
      Beside var (.register e f) (.register e f)
  | addHook {k : Hook} : k.toolchain.Heedless var → Beside var (.addHook k) (.addHook k)
  | runMain {p : Path} : Beside var (.runMain p) (.runMain p)
  | loadExports {p : Path} : Beside var (.loadExports p) (.loadExports p)
  | execute {code : String} {form : Form} : Beside var (.execute code form) (.execute code form)
  | evict {p : Path} : Beside var (.evict p) (.evict p)
  | clear : Beside var .clear .clear
  | edit {f f' : World → World} : (∀ w w', w.Beside var w' → (f w).Beside var (f' w')) →
      Beside var (.edit f) (.edit f')

variable {var : String} {h h' : Host} {o o' : Operation}

/-- What is done with two hosts is answered alike and leaves them beside each other. -/
theorem Beside.twin (ho : o.Beside var o') (hh : h.Beside var h') :
    o'.reply h' = o.reply h ∧ (o.run h).Beside var (o'.run h') := by
  cases ho with
  | @register e f hf =>
    exact ⟨rfl, hh.workspace, congrArg (fun g : Registry => g.register e f) hh.registry,
      Registry.forall_mem_register hh.handlers e hf⟩
  | @addHook k hk =>
    have hhooks := hh.workspace.hooks
    refine ⟨?_, ⟨hh.workspace.world, hh.workspace.heap, ?_, fun number c hc => ?_⟩, hh.registry,
      hh.handlers⟩
    · simp only [reply, Host.addHook, hhooks]
    · simp only [run, Host.addHook, hhooks]
    · simp only [run, Host.addHook, Hook.at?, Array.getElem?_push] at hc
      split at hc
      · obtain rfl := Option.some.inj hc
        exact hk
      · exact hh.workspace.heedless number c hc
  | runMain => exact (Host.twin_runMain _ hh).imp_left (congrArg Reply.ran)
  | loadExports => exact (Host.twin_loadExports _ hh).imp_left (congrArg Reply.shown)
  | execute => exact (Host.twin_execute _ _ hh).imp_left (congrArg Reply.shown)
  | evict => exact (Host.twin_evict _ hh).imp_left (congrArg Reply.evicted)
  | clear => exact ⟨rfl, hh.workspace, congrArg Registry.clear hh.registry, hh.handlers⟩
  | edit hf =>
    exact ⟨rfl, hh.workspace.withWorld (hf _ _ hh.workspace.world), hh.registry, hh.handlers⟩

end Operation

namespace Session

/-- What is answered in a session, in order. -/
def replies : Session → Host → List Reply
  | [], _ => []
  | o :: rest, h => o.reply h :: replies rest (o.run h)

/-- Two sessions in which the same is done. -/
abbrev Beside (var : String) : Session → Session → Prop := List.Forall₂ (Operation.Beside var)

variable {var : String} {h h' : Host} {s s' : Session}

theorem twin (hs : s.Beside var s') (hh : h.Beside var h') :
    s'.replies h' = s.replies h ∧ (s.run h).Beside var (s'.run h') := by
  induction hs generalizing h h' with
  | nil => exact ⟨rfl, hh⟩
  | cons ho _ ih =>
    obtain ⟨hreply, hrun⟩ := ho.twin hh
    obtain ⟨hreplies, hlast⟩ := ih hrun
    refine ⟨?_, hlast⟩
    rw [replies, replies, hreply, hreplies]

/-- The toggle only adds lines to the log. A compilation calls the toolchain with the same, gives
the same result and leaves the same files whether it is reported or not. So two sessions that
differ only in the toggle give the same answers and lead to the same modules, exports and
hooks. -/
theorem toggle_only_reports (var : String) :
    (∀ t : Toolchain, t.Heedless var → ∀ runs source configName w,
      let quiet := compileFile t runs source configName false w
      let told := compileFile t runs source configName true w
      told.result = quiet.result ∧ told.runs = quiet.runs ∧
        told.world.tree = quiet.world.tree ∧
        quiet.world.log.toList.Sublist told.world.log.toList ∧
        (toolchainCall runs source configName true w).1 =
          (toolchainCall runs source configName false w).1) ∧
    ∀ h h' s s', h.Beside var h' → Session.Beside var s s' →
      s'.replies h' = s.replies h ∧
        (s'.run h').registry = (s.run h).registry ∧
        (s'.run h').workspace.heap = (s.run h).workspace.heap ∧
        (s'.run h').workspace.hooks = (s.run h).workspace.hooks ∧
        (s'.run h').workspace.world.tree = (s.run h).workspace.world.tree := by
  refine ⟨fun t ht runs source configName w => ?_, fun h h' s s' hh hs => ?_⟩
  · obtain ⟨hsame, hlog, hcall⟩ := compileFile_debug ht runs source configName w
    exact ⟨hsame.result, hsame.runs, hsame.world.tree, hlog, hcall⟩
  · obtain ⟨hreplies, hlast⟩ := twin hs hh
    exact ⟨hreplies, hlast.registry, hlast.workspace.heap, hlast.workspace.hooks,
      hlast.workspace.world.tree⟩

/-- A world with a configuration and with sources one of which asks for the other. -/
def requesting : World :=
  ⟨⟨[(["tsconfig.json".toList], .file "{}".toUTF8 ⟨0⟩ 0),
      (["a.ts".toList], .file "exports.b = require('./b');".toUTF8 ⟨0⟩ 0),
      (["b.ts".toList], .file "exports.v = 1;".toUTF8 ⟨0⟩ 0)], []⟩, [], ⟨0⟩, 1, #[]⟩

/-- A session with a hook: a source is loaded after the toggle is set, and another one later. -/
def hooked (toggle : World → World) : Session :=
  [.edit toggle, .addHook (.new .standard (StandIn.copy true ⟨1⟩)),
    .register "ts" (Hook.handler 0), .runMain "/a.ts", .edit fun w => { w with now := ⟨5⟩ },
    .loadExports "/b.ts"]

/-- The session with the toggle on and the session with the toggle as it is. A compilation tells
more with the toggle on. -/
theorem toggle_only_reports_requesting :
    let on : World → World := fun w => w.setVariable "TSHOOK_DEBUG" (some "1")
    let quiet := compileFile (StandIn.copy true ⟨1⟩) 0 "/a.ts" "tsconfig.json" false requesting
    let told := compileFile (StandIn.copy true ⟨1⟩) 0 "/a.ts" "tsconfig.json" true requesting
    (told.result = quiet.result ∧ quiet.result = .ok "/1/a.js" ∧
      quiet.world.log.toList.Sublist told.world.log.toList ∧
      quiet.world.log.size = 1 ∧ told.world.log.size = 9) ∧
    (hooked on).replies (.start requesting) = (hooked id).replies (.start requesting) ∧
      ((hooked on).run (.start requesting)).workspace.hooks =
        ((hooked id).run (.start requesting)).workspace.hooks := by
  intro on quiet told
  have htoggle : ∀ w w' : World, w.Beside "TSHOOK_DEBUG" w' → w.Beside "TSHOOK_DEBUG" (on w') :=
    fun _ w' h => h.trans (.setVariable w' _)
  have hclock : ∀ w w' : World, w.Beside "TSHOOK_DEBUG" w' →
      World.Beside "TSHOOK_DEBUG" { w with now := ⟨5⟩ } { w' with now := ⟨5⟩ } :=
    fun _ _ h => ⟨h.tree, h.env, rfl, h.pid⟩
  have hsame : Session.Beside "TSHOOK_DEBUG" (hooked id) (hooked on) :=
    .cons (.edit htoggle) (.cons (.addHook (StandIn.heedless_copy true ⟨1⟩)) (.cons
      (.register fun realm module => Hook.heedless_handler 0 realm module)
      (.cons .runMain (.cons (.edit hclock) (.cons .loadExports .nil)))))
  obtain ⟨hcompile, hsession⟩ := toggle_only_reports "TSHOOK_DEBUG"
  obtain ⟨hresult, -, -, hlog, -⟩ :=
    hcompile _ (StandIn.heedless_copy true ⟨1⟩) 0 "/a.ts" "tsconfig.json" requesting
  obtain ⟨hreplies, -, -, hhooks, -⟩ :=
    hsession _ _ _ _ (Host.beside_start (.refl requesting)) hsame
  exact ⟨⟨hresult, by decide +kernel, hlog, by decide +kernel, by decide +kernel⟩, hreplies,
    hhooks⟩

end Session

end LoadHook
