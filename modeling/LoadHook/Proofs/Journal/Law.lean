import LoadHook.Proofs.Journal.Session
import LoadHook.Proofs.Module.Stretch

/-!
# Laws of runs

A law of runs says how the host before a piece of a run, its journal and the host after it go
together. A law that holds of the single moments of a run and of the handlers that are dispatched,
and of two pieces one after the other, holds of every session, however loads are nested in it.

Between the moments of a journal nothing happens to the heap of the scripts: a stretch begins with
the heap that the moment before has left, and no other moment changes it. So what every stretch
leaves alone is at each moment what it was at the beginning.
-/
namespace LoadHook

open Script (Value RealmRef Ref)
open Load (Secluded Stretches)

/-- A run of the handler of a registered module, with loads nested so deep at most. -/
structure Dispatch where
  depth : Nat
  realm : RealmRef
  path : Path
  module : Ref
  before : Host

namespace Dispatch

/-- The handler that is dispatched. -/
def handler (d : Dispatch) : Handler := d.before.registry.handlerFor d.path

/-- What the handler comes to, and what happens meanwhile. -/
def record (d : Dispatch) : Record (Except Failure Unit) :=
  Recorded.perform .code (Recorded.answerWithin d.depth) (d.handler d.realm d.module) d.before

/-- The host when the handler has ended. -/
def after (d : Dispatch) : Host := d.record.host

/-- The moments from the dispatch to the end of the handler. -/
def journal (d : Dispatch) : Journal := ⟨.dispatched d.path d.module, d.before⟩ :: d.record.journal

end Dispatch

open Recorded in
/-- A law of runs. -/
structure RunLaw (R : Host → Journal → Host → Prop) : Prop where
  nil (h : Host) : R h [] h
  append {h h₁ h₂ : Host} {j k : Journal} : R h j h₁ → R h₁ k h₂ → R h (j ++ k) h₂
  /-- A moment at which nothing changes and no handler is dispatched. -/
  still (what : Happening) (h : Host) : (∀ p m, what ≠ .dispatched p m) → R h [⟨what, h⟩] h
  stretch (part : Part) {h : Host} {w : Workspace} : h.workspace.Inner w →
    R h [⟨.ran part h, ⟨h.registry, w⟩⟩] ⟨h.registry, w⟩
  dropped (p : Path) (h : Host) : R h [⟨.dropped p, h.withoutModule p⟩] (h.withoutModule p)
  evicted (p : Path) (h : Host) : R h [⟨.evicted p, h.withoutModule p⟩] (h.withoutModule p)
  cleared (h : Host) : R h [⟨.cleared, h.clear⟩] h.clear
  hooked (k : Hook) (h : Host) : R h [] (h.addHook k).2
  edited (f : World → World) (h : Host) : R h [] (h.withWorld (f h.workspace.world))
  /-- A module is called that is not registered; its object is made and its handler dispatched. -/
  dispatched {d : Dispatch} {h h₁ : Host} {j : Journal} :
    (∀ q h, R h (answerWithin d.depth q h).journal (answerWithin d.depth q h).host) →
    h.registry.modules.get? d.path = none →
    perform .making (answerWithin d.depth) (Host.newModule d.realm d.path) h =
      ⟨.ok d.module, h₁, j⟩ → R h j h₁ → d.before = h₁.withModule d.path d.module →
    R h (⟨.called d.realm d.path, h⟩ :: (j ++ d.journal)) d.after

namespace RunLaw

open Recorded

variable {α : Type} {R : Host → Journal → Host → Prop} {f : Answerer} {part : Part} {h h₁ : Host}
  {j : Journal} {w : Workspace}

section Steps

variable (hR : RunLaw R) (hf : ∀ q h, R h (f q h).journal (f q h).host)
include hR

theorem cons {what : Happening} (hw : ∀ p m, what ≠ .dispatched p m) (hj : R h j h₁) :
    R h (⟨what, h⟩ :: j) h₁ := hR.append (hR.still what h hw) hj

theorem concat {what : Happening} (hw : ∀ p m, what ≠ .dispatched p m) (hj : R h j h₁) :
    R h (j ++ [⟨what, h₁⟩]) h₁ := hR.append hj (hR.still what h₁ hw)

include hf

/-- A dialogue whose stretches change the heap and the log only. -/
theorem follow {d : Talk (Except Failure α × Workspace)}
    (hd : Stretches Workspace.Inner (fun _ => Workspace.Inner) w d) (hw : h.workspace = w) :
    R h (follow part f d h).journal (follow part f d h).host := by
  induction hd generalizing h with
  | done hi => exact hR.stretch part (hw ▸ hi)
  | failed hi => exact hR.stretch part (hw ▸ hi)
  | @ask w w' q next hi _ ih =>
    have hran : R h [⟨.ran part h, ⟨h.registry, w'⟩⟩] ⟨h.registry, w'⟩ :=
      hR.stretch part (hw ▸ hi)
    have hasked : R ⟨h.registry, w'⟩ (⟨.asked part q, ⟨h.registry, w'⟩⟩ ::
        (f q ⟨h.registry, w'⟩).journal) (f q ⟨h.registry, w'⟩).host :=
      hR.cons (by simp) (hf q _)
    exact hR.append (hR.append hran hasked) (ih _ _ rfl)

theorem perform (part : Part) {x : Load α} (hx : Secluded x) :
    R h (perform part f x h).journal (perform part f x h).host :=
  hR.follow hf (hx h.workspace) rfl

/-- What comes after the handler of a module. -/
theorem populate (realm : RealmRef) (p : Path) (m : Ref) (h : Host) :
    ∃ k, (populate f realm p m h).journal =
        (Recorded.perform .code f (h.registry.handlerFor p realm m) h).journal ++ k ∧
      R (Recorded.perform .code f (h.registry.handlerFor p realm m) h).host k
        (populate f realm p m h).host := by
  simp only [Recorded.populate]
  generalize Recorded.perform .code f (h.registry.handlerFor p realm m) h = handled
  obtain ⟨result, h₁, j⟩ := handled
  cases result with
  | error e => exact ⟨_, rfl, hR.dropped p h₁⟩
  | ok _ =>
    have hmarked := hR.perform hf .marking (h := h₁)
      (Load.composed_setProperty realm m "loaded" (.bool true)).secluded
    simp only at hmarked ⊢
    generalize Recorded.perform .marking f _ h₁ = marked at hmarked
    obtain ⟨result, h₂, k⟩ := marked
    cases result with
    | error e => exact ⟨k, rfl, hmarked⟩
    | ok _ =>
      exact ⟨_, List.append_assoc _ _ _, hR.concat (by simp) hmarked⟩

variable {loader : Loader}

theorem requireWith (hl : ∀ realm p h, R h (loader realm p h).journal (loader realm p h).host)
    (q : Requirement) (h : Host) :
    R h (requireWith loader f q h).journal (requireWith loader f q h).host := by
  simp only [Recorded.requireWith]
  split
  · exact hR.nil h
  · next p _ =>
    have hload := hl q.realm p h
    generalize loader q.realm p h = loaded at hload
    obtain ⟨result, h₁, j⟩ := loaded
    cases result with
    | error e => exact hload
    | ok m => exact hR.append hload (hR.perform hf .code (Load.Composed.script _).secluded)

theorem answerWith (hl : ∀ realm p h, R h (loader realm p h).journal (loader realm p h).host)
    (q : Requirement) (h : Host) :
    R h (answerWith loader f q h).journal (answerWith loader f q h).host := by
  have hrequired := hR.requireWith hf hl q h
  simp only [Recorded.answerWith]
  generalize Recorded.requireWith loader f q h = required at hrequired
  obtain ⟨result, h₁, j⟩ := required
  cases result with
  | ok v => exact hR.concat (by simp) hrequired
  | error e =>
    have hthrown := hR.perform hf .throwing (h := h₁)
      (Load.composed_throwable q.realm e).secluded
    exact hR.concat (by simp) (hR.append hrequired hthrown)

end Steps

variable (hR : RunLaw R)
include hR

/-- The call of a module that is not registered, and what comes of it until its return. -/
theorem loadNew {n : Nat} (hf : ∀ q h, R h (answerWithin n q h).journal (answerWithin n q h).host)
    (realm : RealmRef) {p : Path} {h : Host} (hp : h.registry.modules.get? p = none) :
    R h (⟨.called realm p, h⟩ :: (loadNew (answerWithin n) realm p h).journal)
      (loadNew (answerWithin n) realm p h).host := by
  have hmade := hR.perform hf .making (h := h) (Load.composed_newModule realm p).secluded
  simp only [Recorded.loadNew]
  generalize made : Recorded.perform .making (answerWithin n) (Host.newModule realm p) h = r
    at hmade
  obtain ⟨result, h₁, j⟩ := r
  cases result with
  | error e => exact hR.cons (by simp) (hR.concat (by simp) hmade)
  | ok m =>
    let d : Dispatch := ⟨n, realm, p, m, h₁.withModule p m⟩
    have hd : R h (⟨.called realm p, h⟩ :: (j ++ d.journal)) d.after :=
      hR.dispatched (d := d) hf hp made hmade rfl
    obtain ⟨k, hk, hrest⟩ := hR.populate hf realm p m (h₁.withModule p m)
    simp only [Record.journal_after, Record.host_after, hk]
    simpa [Dispatch.journal, Dispatch.record, Dispatch.handler, d] using hR.append hd hrest

/-- Loads and their answers, by induction on how deep they may be nested. -/
theorem within (n : Nat) :
    (∀ realm p h, R h (loadWithin n realm p h).journal (loadWithin n realm p h).host) ∧
      ∀ q h, R h (answerWithin n q h).journal (answerWithin n q h).host := by
  -- the return of a load, whatever has happened since its call
  have hreturn {realm : RealmRef} {p : Path} {h : Host} {r : Record (Except Failure Ref)}
      (hr : R h (⟨.called realm p, h⟩ :: r.journal) r.host) :
      R h (bracket realm p h r).journal (bracket realm p h r).host :=
    hR.concat (by simp) hr
  have hcalled {realm : RealmRef} {p : Path} {h : Host} : R h [⟨.called realm p, h⟩] h :=
    hR.still _ h (by simp)
  induction n with
  | zero =>
    refine ⟨fun realm p h => ?_, fun q h => ?_⟩
    · rw [loadWithin]
      refine hreturn ?_
      split
      · exact hcalled
      · exact hR.concat (by simp) hcalled
    · rw [answerWithin]
      exact hR.nil h
  | succ n ih =>
    obtain ⟨hl, ha⟩ := ih
    refine ⟨fun realm p h => ?_, fun q h => ?_⟩
    · rw [loadWithin]
      refine hreturn ?_
      split
      · exact hcalled
      · next hp => exact hR.loadNew ha realm hp
    · rw [answerWithin]
      exact hR.answerWith ha hl q h

theorem answer (q : Requirement) (h : Host) : R h (answer q h).journal (answer q h).host :=
  (hR.within Host.depthLimit).2 q h

/-! ## Entry points -/

theorem conclude {r : Record (Except Failure α)} (hr : R h r.journal r.host) :
    R h (conclude r).journal (conclude r).host := by
  obtain ⟨result, h₁, j⟩ := r
  cases result with
  | ok a => exact hr
  | error e => exact hR.append hr (hR.perform hR.answer .code (Load.composed_caught _ e).secluded)

theorem enter (p : Path) (h : Host) : R h (enter p h).journal (enter p h).host :=
  hR.conclude ((hR.within Host.depthLimit).1 Host.homeRealm p h)

theorem runMain (p : Path) (h : Host) : R h (runMain p h).journal (runMain p h).host := by
  simp only [Recorded.runMain]
  split
  · exact hR.nil h
  · exact hR.enter _ h

theorem loadExports (p : Path) (h : Host) :
    R h (loadExports p h).journal (loadExports p h).host := by
  simp only [Recorded.loadExports]
  split
  · exact hR.nil h
  · next q _ =>
    have hentered := hR.enter q h
    generalize Recorded.enter q h = entered at hentered
    obtain ⟨result, h₁, j⟩ := entered
    cases result with
    | error e => exact hentered
    | ok m =>
      exact hR.append hentered
        (hR.conclude (hR.perform hR.answer .code (Load.composed_exportsText m).secluded))

theorem evict (p : Path) (h : Host) : R h (evict p h).journal (evict p h).host := by
  simp only [Recorded.evict]
  split
  · exact hR.nil h
  · next q _ => exact hR.evicted q h

theorem execute (code : String) (form : Form) (h : Host) :
    R h (execute code form h).journal (execute code form h).host :=
  hR.conclude (hR.perform hR.answer .code (Load.composed_evaluate code form).secluded)

/-! ## Sessions -/

theorem operation (o : Operation) (h : Host)
    (hreg : ∀ e f, o = .register e f → R h [] (h.register e f)) :
    R h (o.journal h) (o.run h) := by
  cases o with
  | register e f => exact hreg e f rfl
  | addHook k => exact hR.hooked k h
  | edit f => exact hR.edited f h
  | clear => exact hR.cleared h
  | runMain p => simpa only [Operation.journal, Operation.run, host_runMain] using hR.runMain p h
  | loadExports p =>
    simpa only [Operation.journal, Operation.run, host_loadExports] using hR.loadExports p h
  | execute code form =>
    simpa only [Operation.journal, Operation.run, host_execute] using hR.execute code form h
  | evict p => simpa only [Operation.journal, Operation.run, host_evict] using hR.evict p h

/-- A law that registering the handlers of a session keeps to holds of the whole session. -/
theorem session (ops : Session) (h : Host)
    (hreg : ∀ e f, .register e f ∈ ops → ∀ h, R h [] (h.register e f)) :
    R h (ops.journal h) (ops.run h) := by
  induction ops generalizing h with
  | nil => exact hR.nil h
  | cons o rest ih =>
    have ho := hR.operation o h fun e f he => hreg e f (he ▸ List.mem_cons_self) h
    exact hR.append ho (ih (o.run h) fun e f he => hreg e f (List.mem_cons_of_mem o he))

end RunLaw

/-! ## What happens to the heap along a run -/

section Traces

open Script (Heap Key Property)

variable {h h₁ h₂ : Heap} {j k : Journal} {x : Moment}

/-- A journal leads from one heap to another. -/
def Traces : Heap → Journal → Heap → Prop
  | h, [], h' => h' = h
  | h, x :: rest, h' =>
    (x.host.workspace.heap = h ∨ ∃ part g, x.what = .ran part g ∧ g.workspace.heap = h) ∧
      Traces x.host.workspace.heap rest h'

theorem Traces.append (hj : Traces h j h₁) (hk : Traces h₁ k h₂) : Traces h (j ++ k) h₂ := by
  induction j generalizing h with
  | nil => rwa [show h₁ = h from hj] at hk
  | cons x j ih => exact ⟨hj.1, ih hj.2⟩

/-- From each moment on the journal leads from the heap at that moment. -/
theorem Traces.after {a b : Journal} (hj : Traces h (a ++ x :: b) h₁) :
    Traces x.host.workspace.heap b h₁ := by
  induction a generalizing h with
  | nil => exact hj.2
  | cons y a ih => exact ih hj.2

/-- A journal leads to each moment of it. -/
theorem Traces.until (hj : Traces h (j ++ k) h₂) : ∃ h₁, Traces h j h₁ ∧ Traces h₁ k h₂ := by
  induction j generalizing h with
  | nil => exact ⟨h, rfl, hj⟩
  | cons x j ih =>
    obtain ⟨h₁, hrest, hk⟩ := ih hj.2
    exact ⟨h₁, ⟨hj.1, hrest⟩, hk⟩

namespace Recorded

variable {α : Type} {f : Answerer}

theorem traces_follow
    (hf : ∀ q g, Traces g.workspace.heap (f q g).journal (f q g).host.workspace.heap)
    (part : Part) (d : Talk (Except Failure α × Workspace)) (g : Host) :
    Traces g.workspace.heap (follow part f d g).journal
      (follow part f d g).host.workspace.heap := by
  induction d generalizing g with
  | done r => exact ⟨.inr ⟨part, g, rfl, rfl⟩, rfl⟩
  | ask q w next ih =>
    have hanswer := hf q ⟨g.registry, w⟩
    exact ⟨.inr ⟨part, g, rfl, rfl⟩, .inl rfl, hanswer.append (ih _ _ _)⟩

end Recorded

open Recorded in
/-- Every run leads from its first heap to its last. -/
theorem runLaw_traces :
    RunLaw fun g j g' => Traces g.workspace.heap j g'.workspace.heap where
  nil _ := rfl
  append := Traces.append
  still _ _ _ := ⟨.inl rfl, rfl⟩
  stretch part g _ _ := ⟨.inr ⟨part, g, rfl, rfl⟩, rfl⟩
  dropped _ _ := ⟨.inl rfl, rfl⟩
  evicted _ _ := ⟨.inl rfl, rfl⟩
  cleared _ := ⟨.inl rfl, rfl⟩
  hooked _ _ := rfl
  edited _ _ := rfl
  dispatched {d g g₁ j} hf _ _ hj hd := by
    have hrun := traces_follow hf .code (d.handler d.realm d.module d.before.workspace) d.before
    have hbefore : d.before.workspace.heap = g₁.workspace.heap := by rw [hd]; rfl
    have hdispatch : Traces g₁.workspace.heap d.journal d.after.workspace.heap :=
      ⟨.inl hbefore, hrun⟩
    exact ⟨.inl rfl, hj.append hdispatch⟩

/-- In every session the journal leads from the first heap to the last. -/
theorem Session.traces (ops : Session) (g : Host) :
    Traces g.workspace.heap (ops.journal g) (ops.run g).workspace.heap :=
  runLaw_traces.session ops g fun _ _ _ _ => rfl

/-! ## What stretches leave alone -/

/-- No stretch of a journal changes what an object has under a key. -/
def Journal.Untouched (r : Ref) (k : Key) (j : Journal) : Prop :=
  ∀ x ∈ j, ∀ part g, x.what = .ran part g →
    x.host.workspace.heap.own r k = g.workspace.heap.own r k

theorem Traces.own (hj : Traces h j h₁) {r : Ref} {k : Key} (hu : j.Untouched r k) :
    h₁.own r k = h.own r k := by
  induction j generalizing h with
  | nil => rw [show h₁ = h from hj]
  | cons x j ih =>
    rw [ih hj.2 fun y hy => hu y (List.mem_cons_of_mem x hy)]
    rcases hj.1 with hsame | ⟨part, g, hran, hsame⟩
    · rw [hsame]
    · rw [hu x List.mem_cons_self part g hran, hsame]

end Traces

end LoadHook
