import LoadHook.Proofs.Journal.Session

/-!
# Loads that are refused

A load that is nested too deep is refused, and its journal says so. A run whose journal says so
nowhere does not depend on how deep loads may be nested: it is the same wherever what it asks for is
answered the same without a refusal, whatever becomes of the answers in which a load is refused.
-/
namespace LoadHook

open Script (Value RealmRef Ref)

/-- No load of a journal is refused for being nested too deep. -/
def Journal.Unrefused (j : Journal) : Prop := ∀ x ∈ j, ∀ p, x.what ≠ .tooDeep p

instance (what : Happening) : Decidable (∀ p, what ≠ .tooDeep p) :=
  match what with
  | .tooDeep p => .isFalse fun h => h p rfl
  | .called .. | .dispatched .. | .completed .. | .dropped _ | .unmade _ | .returned _ | .asked ..
  | .answered .. | .ran .. | .evicted _ | .cleared => .isTrue nofun

instance : DecidablePred Journal.Unrefused := fun j =>
  inferInstanceAs (Decidable (∀ x ∈ j, ∀ p, x.what ≠ .tooDeep p))

namespace Journal

variable {j k : Journal}

theorem Unrefused.mono (hk : k.Unrefused) (hjk : ∀ x ∈ j, x ∈ k) : j.Unrefused :=
  fun x hx => hk x (hjk x hx)

theorem unrefused_append : (j ++ k).Unrefused ↔ j.Unrefused ∧ k.Unrefused :=
  List.forall_mem_append

end Journal

namespace Recorded

variable {α : Type} {f g : Answerer} {part : Part} {x : Load α} {realm : RealmRef} {p : Path}
  {m : Ref} {h : Host}

/-- Answers as one answerer does as long as that refuses nothing, and else as another one. -/
def unlessRefused (f g : Answerer) : Answerer := fun q h =>
  if (f q h).journal.Unrefused then f q h else g q h

/-! ## Answers without refusals -/

section Agreeing

variable (hfg : ∀ q h, (f q h).journal.Unrefused → g q h = f q h)
include hfg

theorem follow_unrefused {d : Talk (Except Failure α × Workspace)}
    (hu : (follow part f d h).journal.Unrefused) : follow part g d h = follow part f d h := by
  induction d generalizing h with
  | done r => rfl
  | ask q w next ih =>
    simp only [follow, Record.journal_after, List.cons_append] at hu
    obtain ⟨-, -, hu⟩ := List.forall_mem_cons.mp hu |>.imp_right List.forall_mem_cons.mp
    obtain ⟨hanswer, hrest⟩ := Journal.unrefused_append.mp hu
    simp only [follow, hfg q _ hanswer, ih _ _ hrest]

theorem perform_unrefused (hu : (perform part f x h).journal.Unrefused) :
    perform part g x h = perform part f x h := follow_unrefused hfg hu

theorem populate_unrefused (hu : (populate f realm p m h).journal.Unrefused) :
    populate g realm p m h = populate f realm p m h := by
  have hhandled (hj : (perform .code f (h.registry.handlerFor p realm m) h).journal.Unrefused) :=
    perform_unrefused hfg hj
  simp only [populate] at hu ⊢
  generalize perform .code f (h.registry.handlerFor p realm m) h = handled at hu hhandled ⊢
  obtain ⟨result, h₁, j⟩ := handled
  cases result with
  | error e => rw [hhandled (Journal.unrefused_append.mp hu).1]
  | ok _ =>
    have hmarked (hk : (perform .marking f (Load.setProperty realm m "loaded" (.bool true))
        h₁).journal.Unrefused) := perform_unrefused hfg hk
    simp only at hu ⊢
    generalize perform .marking f _ h₁ = marked at hu hmarked ⊢
    obtain ⟨result, h₂, k⟩ := marked
    have hboth : (j ++ k).Unrefused := by
      cases result with
      | error e => exact hu
      | ok _ => exact (Journal.unrefused_append.mp hu).1
    obtain ⟨hj, hk⟩ := Journal.unrefused_append.mp hboth
    rw [hhandled hj]
    simp only [hmarked hk]

/-- A load that refuses nothing goes the same way however refusals are answered. -/
theorem loadNew_unrefused (hu : (loadNew f realm p h).journal.Unrefused) :
    loadNew g realm p h = loadNew f realm p h := by
  have hmade (hj : (perform .making f (Host.newModule realm p) h).journal.Unrefused) :=
    perform_unrefused hfg hj
  simp only [loadNew] at hu ⊢
  generalize perform .making f (Host.newModule realm p) h = made at hu hmade ⊢
  obtain ⟨result, h₁, j⟩ := made
  cases result with
  | error e => rw [hmade (Journal.unrefused_append.mp hu).1]
  | ok m =>
    simp only [Record.journal_after, List.append_assoc, Journal.unrefused_append] at hu
    obtain ⟨hj, -, hrest⟩ := hu
    rw [hmade hj]
    simp only [populate_unrefused hfg hrest]

end Agreeing

/-- A module is made and filled without a refusal however the refusals would be answered. -/
theorem loadWithin_unlessRefused {n : Nat} (hp : h.registry.modules.get? p = none)
    (hu : (loadWithin (n + 1) realm p h).journal.Unrefused) :
    Host.loadWithin (n + 1) realm p h =
      h.loadNew (fun q h => (unlessRefused (answerWithin n) g q h).outcome) realm p := by
  have hrecord : loadWithin (n + 1) realm p h =
      bracket realm p h (loadNew (answerWithin n) realm p h) := by
    rw [loadWithin, hp]
  have hnew : (loadNew (answerWithin n) realm p h).journal.Unrefused := by
    rw [hrecord] at hu
    exact hu.mono fun x hx => by simp [bracket, Journal.bracket, hx]
  have hsame : loadNew (unlessRefused (answerWithin n) g) realm p h =
      loadNew (answerWithin n) realm p h := loadNew_unrefused (fun q h hq => if_pos hq) hnew
  rw [← outcome_loadNew fun _ _ => rfl, hsame, outcome_loadNew (outcome_within n).2,
    Host.loadWithin, hp]

/-- Where no depth is left and a module is not registered its load is refused. -/
theorem isSome_of_unrefused (hu : (loadWithin 0 realm p h).journal.Unrefused) :
    ∃ m, h.registry.modules.get? p = some m := by
  cases hp : h.registry.modules.get? p with
  | some m => exact ⟨m, rfl⟩
  | none =>
    rw [loadWithin, hp] at hu
    exact absurd rfl (hu ⟨.tooDeep p, h⟩ (by simp [bracket, Journal.bracket]) p)

/-! ## What a run asks for -/

/-- What is asked for is loaded on the way to the answer. -/
theorem load_prefix_answerWith {load : Loader} {q : Requirement}
    (hp : h.resolve q.specifier q.dir = .ok p) :
    (load q.realm p h).journal <+: (answerWith load f q h).journal := by
  have hrequired : (load q.realm p h).journal <+: (requireWith load f q h).journal := by
    simp only [requireWith, hp]
    generalize load q.realm p h = loaded
    obtain ⟨result, h₁, j⟩ := loaded
    cases result with
    | error e => exact List.prefix_rfl
    | ok m => exact List.prefix_append _ _
  refine hrequired.trans ?_
  simp only [answerWith]
  generalize requireWith load f q h = required
  obtain ⟨result, h₁, j⟩ := required
  cases result with
  | ok v => exact List.prefix_append _ _
  | error e =>
    simp only [Record.journal_after, List.append_assoc]
    exact List.prefix_append _ _

/-! ## Entry points -/

theorem prefix_conclude (r : Record (Except Failure α)) : r.journal <+: (conclude r).journal := by
  obtain ⟨result, h, j⟩ := r
  cases result with
  | ok a => exact List.prefix_rfl
  | error e => exact List.prefix_append _ _

/-- Running a module as an entry loads it. -/
theorem load_prefix_runMain {entry : Path}
    (hp : Host.absolute h.workspace.world.tree entry = .ok p) :
    (load Host.homeRealm p h).journal <+: (runMain entry h).journal := by
  simp only [runMain, hp]
  exact prefix_conclude _

/-- Reading the exports of a module loads it. -/
theorem load_prefix_loadExports {entry : Path}
    (hp : Host.absolute h.workspace.world.tree entry = .ok p) :
    (load Host.homeRealm p h).journal <+: (loadExports entry h).journal := by
  refine (prefix_conclude (load Host.homeRealm p h)).trans ?_
  rw [loadExports, hp, ← enter]
  dsimp only
  generalize enter p h = entered
  obtain ⟨result, h₁, j⟩ := entered
  cases result with
  | error e => exact List.prefix_rfl
  | ok m => exact List.prefix_append _ _

end Recorded
end LoadHook
