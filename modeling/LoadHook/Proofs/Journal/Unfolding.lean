import LoadHook.Proofs.Journal.Session

/-!
# What follows a call

Whatever happens around it, a load that is called goes on as it would by itself from the host at
that moment, and so does the answer to whatever is asked for. So what is known of a single load is
known of every load of a session.
-/
namespace LoadHook

open Script (RealmRef Ref Value)

variable {j k rest : Journal} {x : Moment} {h : Host}

/-- How a journal goes on from a moment: with the answer to what is asked for, and with the load
that is called. -/
structure Unfolds (x : Moment) (rest : Journal) : Prop where
  asked : ∀ part q, x.what = .asked part q →
    ∃ n, (Recorded.answerWithin n q x.host).journal <+: rest
  called : ∀ realm p, x.what = .called realm p →
    ∃ n, (Recorded.loadWithin n realm p x.host).journal <+: x :: rest

/-- Every moment of a journal is followed by what comes of it. -/
def Unfolding : Journal → Prop
  | [] => True
  | x :: rest => Unfolds x rest ∧ Unfolding rest

theorem Unfolds.append (hx : Unfolds x j) : Unfolds x (j ++ k) where
  asked part q hq := by
    obtain ⟨n, hn⟩ := hx.asked part q hq
    exact ⟨n, hn.trans (List.prefix_append j k)⟩
  called realm p hp := by
    obtain ⟨n, hn⟩ := hx.called realm p hp
    exact ⟨n, hn.trans (List.prefix_append (x :: j) k)⟩

theorem unfolds_of_other (ha : ∀ part q, x.what ≠ .asked part q)
    (hc : ∀ realm p, x.what ≠ .called realm p) : Unfolds x j where
  asked part q hq := absurd hq (ha part q)
  called realm p hp := absurd hp (hc realm p)

namespace Unfolding

theorem append (hj : Unfolding j) (hk : Unfolding k) : Unfolding (j ++ k) := by
  induction j with
  | nil => exact hk
  | cons x j ih => exact ⟨hj.1.append, ih hj.2⟩

/-- A moment at which nothing is asked for or called is followed by anything. -/
theorem cons (hk : Unfolding k) (ha : ∀ part q, x.what ≠ .asked part q)
    (hc : ∀ realm p, x.what ≠ .called realm p) : Unfolding (x :: k) :=
  ⟨unfolds_of_other ha hc, hk⟩

theorem single (ha : ∀ part q, x.what ≠ .asked part q)
    (hc : ∀ realm p, x.what ≠ .called realm p) : Unfolding [x] := .cons trivial ha hc

theorem concat (hj : Unfolding j) (ha : ∀ part q, x.what ≠ .asked part q)
    (hc : ∀ realm p, x.what ≠ .called realm p) : Unfolding (j ++ [x]) := hj.append (.single ha hc)

/-- What follows at a place of a journal. -/
theorem unfolds {a : Journal} (hj : Unfolding (a ++ x :: rest)) : Unfolds x rest := by
  induction a with
  | nil => exact hj.1
  | cons y a ih => exact ih hj.2

end Unfolding

/-! ## Loads -/

namespace Recorded

variable {α : Type} {n : Nat}

section Answering

variable (hf : ∀ q h, Unfolding (answerWithin n q h).journal)
include hf

theorem unfolding_follow (part : Part) (d : Talk (Except Failure α × Workspace)) (h : Host) :
    Unfolding (follow part (answerWithin n) d h).journal := by
  induction d generalizing h with
  | done r => exact .single (by simp) (by simp)
  | ask q w next ih =>
    have hasked : Unfolds ⟨.asked part q, ⟨h.registry, w⟩⟩
        (answerWithin n q ⟨h.registry, w⟩).journal := by
      refine ⟨fun part' q' hq => ?_, by simp⟩
      cases hq
      exact ⟨n, List.prefix_rfl⟩
    have hanswer : Unfolding (⟨.asked part q, ⟨h.registry, w⟩⟩ ::
        (answerWithin n q ⟨h.registry, w⟩).journal) := ⟨hasked, hf q _⟩
    exact .cons (hanswer.append (ih _ _ _)) (by simp) (by simp)

theorem unfolding_perform (part : Part) (x : Load α) (h : Host) :
    Unfolding (perform part (answerWithin n) x h).journal :=
  unfolding_follow hf part (x h.workspace) h

theorem unfolding_populate (realm : RealmRef) (p : Path) (m : Ref) (h : Host) :
    Unfolding (populate (answerWithin n) realm p m h).journal := by
  have hhandled := unfolding_perform hf .code (h.registry.handlerFor p realm m) h
  simp only [populate]
  generalize perform .code (answerWithin n) (h.registry.handlerFor p realm m) h = handled
    at hhandled
  obtain ⟨result, h₁, j⟩ := handled
  cases result with
  | error e => exact hhandled.concat (by simp) (by simp)
  | ok _ =>
    have hmarked := unfolding_perform hf .marking
      (Load.setProperty realm m "loaded" (.bool true)) h₁
    simp only
    generalize perform .marking (answerWithin n) _ h₁ = marked at hmarked
    obtain ⟨result, h₂, k⟩ := marked
    cases result with
    | error e => exact hhandled.append hmarked
    | ok _ => exact (hhandled.append hmarked).concat (by simp) (by simp)

theorem unfolding_loadNew (realm : RealmRef) (p : Path) (h : Host) :
    Unfolding (loadNew (answerWithin n) realm p h).journal := by
  have hmade := unfolding_perform hf .making (Host.newModule realm p) h
  simp only [loadNew]
  generalize perform .making (answerWithin n) _ h = made at hmade
  obtain ⟨result, h₁, j⟩ := made
  cases result with
  | error e => exact hmade.concat (by simp) (by simp)
  | ok m =>
    exact (hmade.concat (by simp) (by simp)).append
      (unfolding_populate hf realm p m (h₁.withModule p m))

variable {loader : Loader}

theorem unfolding_requireWith (hl : ∀ realm p h, Unfolding (loader realm p h).journal)
    (q : Requirement) (h : Host) :
    Unfolding (requireWith loader (answerWithin n) q h).journal := by
  simp only [requireWith]
  split
  · trivial
  · next p _ =>
    have hload := hl q.realm p h
    generalize loader q.realm p h = loaded at hload
    obtain ⟨result, h₁, j⟩ := loaded
    cases result with
    | error e => exact hload
    | ok m => exact hload.append (unfolding_perform hf .code (Load.exports q.realm m) h₁)

theorem unfolding_answerWith (hl : ∀ realm p h, Unfolding (loader realm p h).journal)
    (q : Requirement) (h : Host) :
    Unfolding (answerWith loader (answerWithin n) q h).journal := by
  have hrequired := unfolding_requireWith hf hl q h
  simp only [answerWith]
  generalize requireWith loader (answerWithin n) q h = required at hrequired
  obtain ⟨result, h₁, j⟩ := required
  cases result with
  | ok v => exact hrequired.concat (by simp) (by simp)
  | error e =>
    exact (hrequired.append (unfolding_perform hf .throwing (Load.throwable q.realm e) h₁)).concat
      (by simp) (by simp)

end Answering

/-- A load that is followed by what comes of it, if what lies between its call and its return is
followed by what comes of it. -/
theorem unfolding_load {realm : RealmRef} {p : Path} {r : Record (Except Failure Ref)}
    (he : loadWithin n realm p h = bracket realm p h r) (hr : Unfolding r.journal) :
    Unfolding (loadWithin n realm p h).journal := by
  have hreturned : Unfolding (r.journal ++ [⟨.returned ⟨p, h, r.result, r.host,
      Journal.dispatches r.journal, Journal.completions r.journal⟩, r.host⟩]) :=
    hr.concat (by simp) (by simp)
  have hcalled : Unfolds ⟨.called realm p, h⟩ (r.journal ++ [⟨.returned ⟨p, h, r.result, r.host,
      Journal.dispatches r.journal, Journal.completions r.journal⟩, r.host⟩]) := by
    refine ⟨by simp, fun realm' p' hp => ?_⟩
    cases hp
    refine ⟨n, ?_⟩
    rw [he]
    exact List.prefix_rfl
  rw [he]
  exact ⟨hcalled, hreturned⟩

theorem unfolding_within (n : Nat) :
    (∀ realm p h, Unfolding (loadWithin n realm p h).journal) ∧
      ∀ q h, Unfolding (answerWithin n q h).journal := by
  induction n with
  | zero =>
    refine ⟨fun realm p h => unfolding_load (by rw [loadWithin]) ?_, fun q h => ?_⟩
    · split
      · trivial
      · exact .single (by simp) (by simp)
    · rw [answerWithin]
      trivial
  | succ n ih =>
    obtain ⟨hl, ha⟩ := ih
    refine ⟨fun realm p h => unfolding_load (by rw [loadWithin]) ?_, fun q h => ?_⟩
    · split
      · trivial
      · exact unfolding_loadNew ha realm p h
    · rw [answerWithin]
      exact unfolding_answerWith ha hl q h

theorem unfolding_answer (part : Part) (x : Load α) (h : Host) :
    Unfolding (perform part answer x h).journal :=
  unfolding_perform (unfolding_within Host.depthLimit).2 part x h

/-! ## Entry points -/

theorem unfolding_conclude {r : Record (Except Failure α)} (hr : Unfolding r.journal) :
    Unfolding (conclude r).journal := by
  obtain ⟨result, h, j⟩ := r
  cases result with
  | ok a => exact hr
  | error e => exact hr.append (unfolding_answer .code (Load.caught Host.homeRealm e) h)

theorem unfolding_enter (p : Path) (h : Host) : Unfolding (enter p h).journal :=
  unfolding_conclude ((unfolding_within Host.depthLimit).1 Host.homeRealm p h)

theorem unfolding_runMain (p : Path) (h : Host) : Unfolding (runMain p h).journal := by
  simp only [runMain]
  split
  · trivial
  · exact unfolding_enter _ h

theorem unfolding_loadExports (p : Path) (h : Host) : Unfolding (loadExports p h).journal := by
  simp only [loadExports]
  split
  · trivial
  · next q _ =>
    have hentered := unfolding_enter q h
    generalize enter q h = entered at hentered
    obtain ⟨result, h₁, j⟩ := entered
    cases result with
    | error e => exact hentered
    | ok m =>
      exact hentered.append
        (unfolding_conclude (unfolding_answer .code (Host.exportsText m) h₁))

theorem unfolding_evict (p : Path) (h : Host) : Unfolding (evict p h).journal := by
  simp only [evict]
  split
  · trivial
  · exact .single (by simp) (by simp)

end Recorded

theorem Operation.unfolding (o : Operation) (h : Host) : Unfolding (o.journal h) := by
  cases o with
  | register | addHook | edit => trivial
  | runMain p => exact Recorded.unfolding_runMain p h
  | loadExports p => exact Recorded.unfolding_loadExports p h
  | execute code form =>
    exact Recorded.unfolding_conclude (Recorded.unfolding_answer .code (Host.evaluate code form) h)
  | evict p => exact Recorded.unfolding_evict p h
  | clear => exact .single (by simp) (by simp)

/-- In every session each moment is followed by what comes of it. -/
theorem Session.unfolding (ops : Session) (h : Host) : Unfolding (ops.journal h) := by
  induction ops generalizing h with
  | nil => trivial
  | cons o rest ih => exact (o.unfolding h).append (ih (o.run h))

end LoadHook
