import LoadHook.Proofs.Journal.History
import LoadHook.Proofs.Journal.Session
import LoadHook.Proofs.Module.Making

/-!
# How journals come about

`Played` says by rules which journals lead from one host to another: one rule for each thing that
can happen between two stretches of code, and one for each way in which a load can end. Every
recorded run is played by these rules, so what holds of all runs is shown by induction on them.
-/
namespace LoadHook

open Script (Value RealmRef Ref)

/-- What a piece of a journal belongs to. -/
inductive Course where
  /-- Stretches of a part of a run and what they ask for. -/
  | steps (part : Part)
  /-- Making the object of a module, registering it and running its handler. -/
  | filling (realm : RealmRef) (p : Path) (module : Ref)
  /-- What happens between the call of a load and its return. -/
  | body (realm : RealmRef) (p : Path) (result : Except Failure Ref)
  | load (realm : RealmRef) (p : Path) (result : Except Failure Ref)

/-- Who asks for a module that is registered and whose exports are data gets these data, and
nothing else changes. -/
def Served (q : Requirement) (before : Host) (a : Except Value Value) (after : Host) : Prop :=
  ∀ p m v writable e c, before.resolve q.specifier q.dir = .ok p →
    before.registry.modules.get? p = some m →
    before.workspace.heap.own m exportsKey = some ⟨.data v writable, e, c⟩ →
    a = .ok v ∧ after = before

open Recorded in
/-- The journals that lead from one host to another. -/
inductive Played : Course → Host → Journal → Host → Prop
  | nil (part : Part) (h : Host) : Played (.steps part) h [] h
  | append {part : Part} {h h₁ h₂ : Host} {j k : Journal} : Played (.steps part) h j h₁ →
      Played (.steps part) h₁ k h₂ → Played (.steps part) h (j ++ k) h₂
  | ran (part : Part) (h : Host) (w : Workspace) :
      Played (.steps part) h [⟨.ran part h, ⟨h.registry, w⟩⟩] ⟨h.registry, w⟩
  /-- Making the value that is thrown adds to the heap at most. -/
  | threw (h : Host) (w : Workspace) : h.workspace.heap.Extends w.heap →
      Played (.steps .code) h [⟨.ran .throwing h, ⟨h.registry, w⟩⟩] ⟨h.registry, w⟩
  /-- A requirement that leads to no load. -/
  | missed (part : Part) (q : Requirement) (h : Host) :
      Played (.steps part) h [⟨.asked part q, h⟩] h
  | required {part : Part} {q : Requirement} {p : Path} {r : Except Failure Ref} {h h₁ : Host}
      {j : Journal} : h.resolve q.specifier q.dir = .ok p → Played (.load q.realm p r) h j h₁ →
      Played (.steps part) h (⟨.asked part q, h⟩ :: j) h₁
  | answered {q : Requirement} {before : Host} {a : Except Value Value} {h : Host} :
      Served q before a h → Played (.steps .code) h [⟨.answered q before a, h⟩] h
  /-- Any part of a run may wait for code to run. -/
  | code {part : Part} {h h₁ : Host} {j : Journal} : Played (.steps .code) h j h₁ →
      Played (.steps part) h j h₁
  | filling {f : Answerer} {realm : RealmRef} {p : Path} {module : Ref} {h h₁ h₂ : Host}
      {j k : Journal} : perform .making f (Host.newModule realm p) h = ⟨.ok module, h₁, j⟩ →
      Played (.steps .making) h j h₁ → Played (.steps .code) (h₁.withModule p module) k h₂ →
      Played (.filling realm p module) h
        (j ++ ⟨.dispatched p module, h₁.withModule p module⟩ :: k) h₂
  | found {realm : RealmRef} {p : Path} {module : Ref} {h : Host} :
      h.registry.modules.get? p = some module → Played (.body realm p (.ok module)) h [] h
  | tooDeep {realm : RealmRef} {p : Path} {e : Failure} {h : Host} :
      h.registry.modules.get? p = none →
      Played (.body realm p (.error e)) h [⟨.tooDeep p, h⟩] h
  | unmade {f : Answerer} {realm : RealmRef} {p : Path} {e : Failure} {h h₁ : Host}
      {j : Journal} : h.registry.modules.get? p = none →
      perform .making f (Host.newModule realm p) h = ⟨.error e, h₁, j⟩ →
      Played (.steps .making) h j h₁ →
      Played (.body realm p (.error e)) h (j ++ [⟨.unmade p, h₁⟩]) h₁
  | failed {realm : RealmRef} {p : Path} {module : Ref} {e : Failure} {h h₁ : Host}
      {j : Journal} : h.registry.modules.get? p = none →
      Played (.filling realm p module) h j h₁ →
      Played (.body realm p (.error e)) h (j ++ [⟨.dropped p, h₁.withoutModule p⟩])
        (h₁.withoutModule p)
  | unmarked {f : Answerer} {realm : RealmRef} {p : Path} {module : Ref} {e : Failure}
      {h h₁ h₂ : Host} {j k : Journal} : h.registry.modules.get? p = none →
      Played (.filling realm p module) h j h₁ →
      perform .marking f (Load.setProperty realm module "loaded" (.bool true)) h₁ =
        ⟨.error e, h₂, k⟩ →
      Played (.steps .marking) h₁ k h₂ → Played (.body realm p (.error e)) h (j ++ k) h₂
  | completed {f : Answerer} {realm : RealmRef} {p : Path} {module : Ref} {h h₁ h₂ : Host}
      {j k : Journal} : h.registry.modules.get? p = none →
      Played (.filling realm p module) h j h₁ →
      perform .marking f (Load.setProperty realm module "loaded" (.bool true)) h₁ =
        ⟨.ok (), h₂, k⟩ →
      Played (.steps .marking) h₁ k h₂ →
      Played (.body realm p (.ok module)) h (j ++ (k ++ [⟨.completed p module, h₂⟩])) h₂
  | load {realm : RealmRef} {p : Path} {r : Except Failure Ref} {h h₁ : Host} {j : Journal} :
      Played (.body realm p r) h j h₁ →
      Played (.load realm p r) h (Journal.bracket realm p h r j h₁) h₁

/-- Wherever a load makes the object of a module, the names of a module mean nothing special to
the code that asks. -/
def Journal.Plain (j : Journal) : Prop :=
  ∀ x ∈ j, ∀ realm p, x.what = .called realm p →
    x.host.registry.modules.get? p = none → x.host.workspace.heap.PlainFor realm

theorem Journal.Plain.mono {j k : Journal} (hk : k.Plain) (hjk : ∀ x ∈ j, x ∈ k) : j.Plain :=
  fun x hx => hk x (hjk x hx)

/-- Whatever begins in a piece of a run ends in it. -/
theorem Played.balanced {c : Course} {h h' : Host} {j : Journal} (hj : Played c h j h') :
    j.Balanced := by
  induction hj with
  | nil | found => intro open_; rfl
  | ran | threw | missed | answered | tooDeep => intro open_; rfl
  | append _ _ ihj ihk => exact ihj.append ihk
  | required _ _ ih => exact fun open_ => ih open_
  | code _ ih => exact ih
  | filling _ _ _ ihj ihk => exact ihj.append fun open_ => ihk open_
  | unmade _ _ _ ih => exact ih.append fun _ => rfl
  | failed _ _ ih => exact ih.append fun _ => rfl
  | unmarked _ _ _ _ ihj ihk => exact ihj.append ihk
  | completed _ _ _ _ ihj ihk => exact ihj.append (ihk.append fun _ => rfl)
  | load _ ih => exact Journal.balanced_bracket ih

namespace Recorded

variable {α : Type} {f : Answerer}

/-- Whatever an answerer is asked, what it does is played by the rules. -/
def Plays (f : Answerer) : Prop :=
  ∀ part q h, Played (.steps part) h (⟨.asked part q, h⟩ :: (f q h).journal) (f q h).host

theorem played_follow (hf : Plays f) (part : Part) (x : Talk (Except Failure α × Workspace))
    (h : Host) : Played (.steps part) h (follow part f x h).journal (follow part f x h).host := by
  induction x generalizing h with
  | done r => exact .ran part h r.2
  | ask q w next ih =>
    have hran : Played (.steps part) h [⟨.ran part h, ⟨h.registry, w⟩⟩] ⟨h.registry, w⟩ :=
      .ran part h w
    exact hran.append ((hf part q ⟨h.registry, w⟩).append (ih _ _ _))

theorem played_perform (hf : Plays f) (part : Part) (x : Load α) (h : Host) :
    Played (.steps part) h (perform part f x h).journal (perform part f x h).host :=
  played_follow hf part (x h.workspace) h

/-- A module whose object has been made and registered is filled as the rules say. -/
theorem played_populate (hf : Plays f) {realm : RealmRef} {p : Path} {module : Ref}
    {h h₁ : Host} {j : Journal} (hp : h.registry.modules.get? p = none)
    (hmade : perform .making f (Host.newModule realm p) h = ⟨.ok module, h₁, j⟩)
    (hj : Played (.steps .making) h j h₁) {r : Record (Except Failure Ref)}
    (hr : populate f realm p module (h₁.withModule p module) = r) :
    Played (.body realm p r.result) h
      (j ++ ⟨.dispatched p module, h₁.withModule p module⟩ :: r.journal) r.host := by
  have hhandled := played_perform hf .code
    ((h₁.withModule p module).registry.handlerFor p realm module) (h₁.withModule p module)
  simp only [populate] at hr
  generalize perform .code f _ (h₁.withModule p module) = handled at hr hhandled
  obtain ⟨result, h₂, k⟩ := handled
  have hfilled := Played.filling hmade hj hhandled
  cases result with
  | error e =>
    subst hr
    simpa using Played.failed (e := e) hp hfilled
  | ok _ =>
    have hmarked := played_perform hf .marking
      (Load.setProperty realm module "loaded" (.bool true)) h₂
    simp only at hr
    generalize hmark : perform .marking f (Load.setProperty realm module "loaded" (.bool true)) h₂
      = marked at hr hmarked
    obtain ⟨result, h₃, l⟩ := marked
    cases result with
    | error e =>
      subst hr
      simpa using Played.unmarked hp hfilled hmark hmarked
    | ok _ =>
      subst hr
      simpa using Played.completed hp hfilled hmark hmarked

theorem played_loadNew (hf : Plays f) (realm : RealmRef) (p : Path) (h : Host)
    (hp : h.registry.modules.get? p = none) :
    Played (.body realm p (loadNew f realm p h).result) h (loadNew f realm p h).journal
      (loadNew f realm p h).host := by
  have hj := played_perform hf .making (Host.newModule realm p) h
  simp only [loadNew]
  generalize hmade : perform .making f (Host.newModule realm p) h = made at hj
  obtain ⟨result, h₁, j⟩ := made
  cases result with
  | error e => exact .unmade hp hmade hj
  | ok module => simpa using played_populate hf hp hmade hj rfl

variable {loader : Loader}

/-- Loads of a loader are played by the rules, and a registered module is given back. -/
structure Loads (loader : Loader) : Prop where
  played : ∀ realm p h, Played (.load realm p (loader realm p h).result) h
    (loader realm p h).journal (loader realm p h).host
  found : ∀ realm p h m, h.registry.modules.get? p = some m →
    (loader realm p h).result = .ok m ∧ (loader realm p h).host = h

/-- A step that asks for nothing is one stretch. -/
theorem perform_of_done {part : Part} {x : Load α} {h : Host} {r : Except Failure α}
    {w : Workspace} (hx : x h.workspace = .done (r, w)) :
    perform part f x h = .single (.ran part h) r ⟨h.registry, w⟩ := by
  simp only [perform, hx, follow]

/-- A module whose handler asks for nothing is loaded in three stretches. -/
theorem loadNew_of_done {realm : RealmRef} {p : Path} {m : Ref} {h : Host} {w₁ w₂ : Workspace}
    (hmade : Host.newModule realm p h.workspace = .done (.ok m, w₁))
    (hrun : h.registry.handlerFor p realm m w₁ = .done (.ok (), w₂))
    (hmark : w₂.heap.Marked m false) :
    loadNew f realm p h =
      let h₁ : Host := ⟨h.registry.insert p m, w₁⟩
      let h₂ : Host := ⟨h₁.registry, w₂⟩
      let h₃ : Host := ⟨h₁.registry, { w₂ with heap := w₂.heap.mark m }⟩
      ⟨.ok m, h₃, [⟨.ran .making h, ⟨h.registry, w₁⟩⟩, ⟨.dispatched p m, h₁⟩,
        ⟨.ran .code h₁, h₂⟩, ⟨.ran .marking h₂, h₃⟩, ⟨.completed p m, h₃⟩]⟩ := by
  have hhandled : perform .code f ((h.registry.insert p m).handlerFor p realm m)
      ⟨h.registry.insert p m, w₁⟩ = .single _ (.ok ()) ⟨h.registry.insert p m, w₂⟩ :=
    perform_of_done hrun
  have hmarked : perform .marking f (Load.setProperty realm m "loaded" (.bool true))
      ⟨h.registry.insert p m, w₂⟩ = .single _ _ _ := perform_of_done (setLoaded_of_marked hmark)
  simp only [loadNew, perform_of_done hmade, populate, Host.withModule, Record.single, hhandled,
    hmarked]
  rfl

theorem played_throwable (realm : RealmRef) (e : Failure) (h : Host) :
    Played (.steps .code) h (perform .throwing f (Load.throwable realm e) h).journal
      (perform .throwing f (Load.throwable realm e) h).host := by
  obtain ⟨v, heap, hrun, hext⟩ := throwable_done realm e h.workspace
  rw [perform_of_done hrun]
  exact .threw h _ hext

/-- A registered module whose exports are data is served these data. -/
theorem served_answerWith (hl : Loads loader) (q : Requirement) (h : Host) :
    Served q h (answerWith loader f q h).result (answerWith loader f q h).host := by
  intro p m v writable e c hp hm hv
  obtain ⟨hr, hh⟩ := hl.found q.realm p h m hm
  have hrequired : (requireWith loader f q h).result = .ok v ∧
      (requireWith loader f q h).host = h := by
    simp only [requireWith, hp, hr, hh, perform_of_done (exports_of_holds ⟨_, _, _, hv⟩)]
    exact ⟨rfl, rfl⟩
  simp only [answerWith, hrequired.1]
  exact ⟨rfl, hrequired.2⟩

theorem played_requireWith (hl : Loads loader) (hf : Plays f) (part : Part) (q : Requirement)
    (h : Host) :
    Played (.steps part) h (⟨.asked part q, h⟩ :: (requireWith loader f q h).journal)
      (requireWith loader f q h).host := by
  simp only [requireWith]
  cases hp : h.resolve q.specifier q.dir with
  | error e => exact .missed part q h
  | ok p =>
    have hload : Played (.steps part) h (⟨.asked part q, h⟩ :: (loader q.realm p h).journal)
        (loader q.realm p h).host := .required hp (hl.played q.realm p h)
    simp only
    generalize loader q.realm p h = loaded at hload
    obtain ⟨r, h₁, j⟩ := loaded
    cases r with
    | error e => exact hload
    | ok module =>
      exact hload.append (.code (played_perform hf .code (Load.exports q.realm module) h₁))

theorem plays_answerWith (hl : Loads loader) (hf : Plays f) : Plays (answerWith loader f) := by
  intro part q h
  have hrequired := played_requireWith hl hf part q h
  have hserved := served_answerWith (f := f) hl q h
  simp only [answerWith] at hserved ⊢
  generalize requireWith loader f q h = required at hrequired hserved ⊢
  obtain ⟨r, h₁, j⟩ := required
  cases r with
  | ok v => exact hrequired.append (.code (.answered hserved))
  | error e =>
    have hthrown := played_throwable (f := f) q.realm e h₁
    simpa using hrequired.append (.code (hthrown.append (.answered hserved)))

theorem plays_within (depth : Nat) : Loads (loadWithin depth) ∧ Plays (answerWithin depth) := by
  induction depth with
  | zero =>
    refine ⟨⟨fun realm p h => ?_, fun realm p h m hm => ?_⟩, fun part q h => ?_⟩
    · rw [loadWithin]
      refine Played.load ?_
      cases hp : h.registry.modules.get? p with
      | some module => exact .found hp
      | none => exact .tooDeep hp
    · rw [loadWithin_of_registered hm]
      exact ⟨rfl, rfl⟩
    · rw [answerWithin]
      exact .missed part q h
  | succ n ih =>
    obtain ⟨hl, ha⟩ := ih
    refine ⟨⟨fun realm p h => ?_, fun realm p h m hm => ?_⟩, fun part q h => ?_⟩
    · rw [loadWithin]
      refine Played.load ?_
      cases hp : h.registry.modules.get? p with
      | some module => exact .found hp
      | none => exact played_loadNew ha realm p h hp
    · rw [loadWithin_of_registered hm]
      exact ⟨rfl, rfl⟩
    · rw [answerWithin]
      exact plays_answerWith hl ha part q h

theorem played_load (realm : RealmRef) (p : Path) (h : Host) :
    Played (.load realm p (load realm p h).result) h (load realm p h).journal
      (load realm p h).host :=
  (plays_within Host.depthLimit).1.played realm p h

theorem plays_answer : Plays answer := (plays_within Host.depthLimit).2

/-- What is done with a failure outside of scripts comes after it in the journal. -/
theorem played_conclude (r : Record (Except Failure α)) :
    ∃ k, (conclude r).journal = r.journal ++ k ∧
      Played (.steps .code) r.host k (conclude r).host := by
  obtain ⟨r, h, j⟩ := r
  cases r with
  | ok a => exact ⟨[], (List.append_nil j).symm, .nil .code h⟩
  | error e => exact ⟨_, rfl, played_perform plays_answer .code (Load.caught Host.homeRealm e) h⟩

end Recorded

/-! ## Sessions -/

/-- The journals of what is done with a host from outside. -/
inductive Conducted : Operation → Host → Journal → Host → Prop
  | registered (extension : String) (f : Handler) (h : Host) :
      Conducted (.register extension f) h [] (h.register extension f)
  | hooked (k : Hook) (h : Host) : Conducted (.addHook k) h [] (h.addHook k).2
  | edited (f : World → World) (h : Host) :
      Conducted (.edit f) h [] (h.withWorld (f h.workspace.world))
  /-- Nothing is done where a path cannot be made absolute. -/
  | missed (o : Operation) (h : Host) : Conducted o h [] h
  | entered {o : Operation} {p₀ p : Path} {r : Except Failure Ref} {h h₁ h₂ : Host}
      {j k : Journal} : Host.absolute h.workspace.world.tree p₀ = .ok p →
      Played (.load Host.homeRealm p r) h j h₁ → Played (.steps .code) h₁ k h₂ →
      Conducted o h (j ++ k) h₂
  | executed {code : String} {form : Form} {h h₁ : Host} {j : Journal} :
      Played (.steps .code) h j h₁ → Conducted (.execute code form) h j h₁
  | evicted {p₀ p : Path} {h : Host} : Host.absolute h.workspace.world.tree p₀ = .ok p →
      Conducted (.evict p₀) h [⟨.evicted p, h.withoutModule p⟩] (h.withoutModule p)
  | cleared (h : Host) : Conducted .clear h [⟨.cleared, h.clear⟩] h.clear

namespace Recorded

/-- Entering a module is loading it, and telling of a failure. -/
theorem played_enter (p : Path) (h : Host) :
    ∃ r h₁ j k, (enter p h).journal = j ++ k ∧ Played (.load Host.homeRealm p r) h j h₁ ∧
      Played (.steps .code) h₁ k (enter p h).host := by
  obtain ⟨k, hk, hplayed⟩ := played_conclude (load Host.homeRealm p h)
  exact ⟨_, _, _, k, hk, played_load Host.homeRealm p h, hplayed⟩

end Recorded

theorem Conducted.balanced {o : Operation} {h h' : Host} {j : Journal}
    (hj : Conducted o h j h') : j.Balanced := by
  cases hj with
  | registered | hooked | edited | missed => exact fun _ => rfl
  | entered _ hj hk => exact hj.balanced.append hk.balanced
  | executed hj => exact hj.balanced
  | evicted | cleared => exact fun _ => rfl

namespace Operation

open Recorded

/-- Whatever is done with a host from outside is conducted by the rules. -/
theorem conducted (o : Operation) (h : Host) : Conducted o h (o.journal h) (o.run h) := by
  cases o with
  | register extension f => exact .registered extension f h
  | addHook k => exact .hooked k h
  | edit f => exact .edited f h
  | clear => exact .cleared h
  | evict p =>
    simp only [journal, run, ← host_evict, Recorded.evict]
    cases hp : Host.absolute h.workspace.world.tree p with
    | error cause => exact .missed _ h
    | ok q => exact .evicted hp
  | execute code form =>
    simp only [journal, run, ← host_execute, Recorded.execute]
    obtain ⟨k, hk, hplayed⟩ :=
      played_conclude (perform .code answer (Host.evaluate code form) h)
    rw [hk]
    exact .executed ((played_perform plays_answer .code _ h).append hplayed)
  | runMain p =>
    simp only [journal, run, ← host_runMain, Recorded.runMain]
    cases hp : Host.absolute h.workspace.world.tree p with
    | error cause => exact .missed _ h
    | ok q =>
      obtain ⟨r, h₁, j, k, hj, hload, hrest⟩ := played_enter q h
      simp only [hj]
      exact .entered hp hload hrest
  | loadExports p =>
    simp only [journal, run, ← host_loadExports, Recorded.loadExports]
    cases hp : Host.absolute h.workspace.world.tree p with
    | error cause => exact .missed _ h
    | ok q =>
      obtain ⟨r, h₁, j, k, hj, hload, hrest⟩ := played_enter q h
      simp only
      generalize Recorded.enter q h = entered at hj hrest
      obtain ⟨r, h₂, i⟩ := entered
      subst hj
      cases r with
      | error e => exact .entered hp hload hrest
      | ok module =>
        obtain ⟨l, hl, hshown⟩ :=
          played_conclude (perform .code answer (Host.exportsText module) h₂)
        simp only [hl, List.append_assoc]
        exact .entered hp hload
          (hrest.append ((played_perform plays_answer .code _ h₂).append hshown))

end Operation

end LoadHook
