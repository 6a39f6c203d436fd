import Mathlib.Data.List.Perm.Subperm
import LoadHook.Proofs.Hook.Fate
import LoadHook.Proofs.Hook.Provenance

/-!
# The accounts of a hook

A hook counts each source at the moment at which it decides about it, which is the first thing that
its handler does. Loads are nested in each other, but whatever is nested begins after that, and so
the counters agree with the journal at every moment: each of them is the number of dispatches so far
with the fate that it counts.
-/
namespace LoadHook

open Script (Value RealmRef Ref)
open Load (Stretches)

variable {number : Nat} {p : Path} {f : Fate} {x : Moment} {h h₁ g : Host} {j k past : Journal}
  {w w' : Workspace}

/-! ## Dispatches of a hook in a journal -/

namespace Moment

/-- The handler of the hook of a number is dispatched. -/
def Serves (number : Nat) (x : Moment) : Prop :=
  ∃ p m, x.what = .dispatched p m ∧ x.host.registry.handlerFor p = Hook.handler number

/-- The handler of the hook of a number is dispatched for a source that meets a fate. -/
def Meets (number : Nat) (p : Path) (f : Fate) (x : Moment) : Prop :=
  ∃ m k, x.what = .dispatched p m ∧ x.host.registry.handlerFor p = Hook.handler number ∧
    Hook.at? x.host.workspace number = some k ∧ k.fate p x.host.workspace.world = f

/-- A source meets one fate. -/
theorem Meets.fate_eq {q : Path} {f' : Fate} (hf : x.Meets number p f) (hf' : x.Meets number q f') :
    f = f' := by
  obtain ⟨m, k, hx, -, hk, rfl⟩ := hf
  obtain ⟨m', k', hx', -, hk', rfl⟩ := hf'
  cases hx.symm.trans hx'
  cases hk.symm.trans hk'
  rfl

theorem Meets.iff_eq (hf : x.Meets number p f) {f' : Fate} :
    (∃ q, x.Meets number q f') ↔ f = f' := by
  refine ⟨fun ⟨q, hq⟩ => hf.fate_eq hq, ?_⟩
  rintro rfl
  exact ⟨p, hf⟩

theorem Meets.serves (hf : x.Meets number p f) : x.Serves number := by
  obtain ⟨m, k, hx, hs, -⟩ := hf
  exact ⟨p, m, hx, hs⟩

/-- A moment at which no handler is dispatched. -/
theorem not_meets (hx : ∀ p m, x.what ≠ .dispatched p m) : ¬ x.Meets number p f := by
  rintro ⟨m, -, hdispatched, -⟩
  exact hx p m hdispatched

end Moment

namespace Journal

open Classical in
/-- How many dispatches of a hook are for a source that meets a fate. -/
noncomputable def tally (number : Nat) (f : Fate) (j : Journal) : Nat :=
  j.countP fun x => ∃ p, x.Meets number p f

open Classical in
/-- How many dispatches of a hook are not for a source that is refused. -/
noncomputable def accepted (number : Nat) (j : Journal) : Nat :=
  j.countP fun x => x.Serves number ∧ ¬ ∃ p, x.Meets number p .refused

open Classical in
/-- How many dispatches of a hook run an output. -/
noncomputable def executed (number : Nat) (j : Journal) : Nat :=
  j.countP fun x => ∃ p f, x.Meets number p f ∧ f.executes

/-- The counters that agree with a journal. -/
noncomputable def counted (number : Nat) (j : Journal) : HookStats :=
  ⟨j.tally number .compiled, j.tally number .reused, j.tally number .aborted⟩

open Classical in
theorem tally_concat (past : Journal) (x : Moment) (f : Fate) :
    tally number f (past ++ [x]) =
      tally number f past + if ∃ p, x.Meets number p f then 1 else 0 := by
  simp [tally, List.countP_append, List.countP_singleton]

theorem counted_of_not_dispatched (past : Journal) (hx : ∀ p m, x.what ≠ .dispatched p m) :
    counted number (past ++ [x]) = counted number past := by
  simp [counted, tally_concat, Moment.not_meets hx]

/-- A moment at which the handler of a hook is not dispatched counts for nothing. -/
theorem counted_of_not_serves (past : Journal) (hx : ¬ x.Serves number) :
    counted number (past ++ [x]) = counted number past := by
  have hnone (f : Fate) : ¬ ∃ p, x.Meets number p f := by
    rintro ⟨p, m, -, hp, hs, -⟩
    exact hx ⟨p, m, hp, hs⟩
  simp [counted, tally_concat, hnone]

theorem counted_of_meets (past : Journal) (hx : x.Meets number p f) :
    counted number (past ++ [x]) = (counted number past).count f := by
  cases f <;> simp [counted, tally_concat, hx.iff_eq, HookStats.count]

/-- Along a journal no number of dispatches decreases. -/
theorem tally_le_append (f : Fate) (j k : Journal) :
    tally number f j ≤ tally number f (j ++ k) := by
  rw [tally, tally, List.countP_append]
  exact Nat.le_add_right _ _

/-- The outputs that are run are those that were compiled or reused. -/
theorem executed_eq (number : Nat) (j : Journal) :
    j.executed number = j.tally number .compiled + j.tally number .reused := by
  induction j with
  | nil => rfl
  | cons x j ih =>
    simp only [executed, tally, List.countP_cons, decide_eq_true_eq] at ih ⊢
    rw [ih]
    by_cases hx : ∃ p f, x.Meets number p f
    · obtain ⟨p, f, hf⟩ := hx
      have hexecutes : (∃ p f, x.Meets number p f ∧ f.executes) ↔ f.executes := by
        refine ⟨fun ⟨q, f', hf', he⟩ => hf.fate_eq hf' ▸ he, fun he => ⟨p, f, hf, he⟩⟩
      simp only [hf.iff_eq, hexecutes]
      cases f <;> simp [Fate.executes] <;> omega
    · simp only [not_exists] at hx
      simp [hx]

/-- The dispatches that are accepted are those of which the fate is counted, where the hook is
there whenever its handler is dispatched. -/
theorem accepted_eq (hj : ∀ x ∈ j, x.Serves number → ∃ p f, x.Meets number p f) :
    j.accepted number =
      j.tally number .compiled + j.tally number .reused + j.tally number .aborted := by
  induction j with
  | nil => rfl
  | cons x j ih =>
    have ih := ih fun y hy => hj y (List.mem_cons_of_mem x hy)
    simp only [accepted, tally, List.countP_cons, decide_eq_true_eq] at ih ⊢
    rw [ih]
    by_cases hx : ∃ p f, x.Meets number p f
    · obtain ⟨p, f, hf⟩ := hx
      simp only [hf.iff_eq, hf.serves, true_and]
      cases f <;> simp <;> omega
    · have hserves : ¬ x.Serves number := fun hs => hx (hj x List.mem_cons_self hs)
      simp only [not_exists] at hx
      simp [hx, hserves]

end Journal

/-! ## The counters of a run -/

/-- The counters of the hook of a number. -/
def Workspace.stats? (w : Workspace) (number : Nat) : Option HookStats :=
  (Hook.at? w number).map Hook.stats

theorem Workspace.stats?_of_at? {c : Hook} (hc : Hook.at? w number = some c) :
    w.stats? number = some c.stats := by rw [stats?, hc, Option.map_some]

theorem Workspace.Same.stats? (hw : w.Same number w') : w'.stats? number = w.stats? number := by
  rw [Workspace.stats?, hw, Workspace.stats?]

theorem Hook.stats?_put {c : Hook} (hc : at? w number = some c) (c' : Hook) (u : World) :
    (put { w with world := u } number c').stats? number = some c'.stats :=
  Workspace.stats?_of_at? (at?_put (v := { w with world := u }) hc c')

theorem Hook.Uncounted.stats? (hw : Uncounted w w') : w'.stats? number = w.stats? number := by
  have hstats (o : Option Hook) :
      o.map Hook.stats = (o.map fun k => { k with cache := .empty }).map Hook.stats := by
    cases o <;> rfl
  rw [Workspace.stats?, hstats, hw.hooks, ← hstats, Workspace.stats?]

/-- The counters of a hook agree with the journal so far, and the handlers are proper. -/
structure Host.Tallied (h : Host) (number : Nat) (past : Journal) : Prop where
  stats : h.workspace.stats? number = some (past.counted number)
  handlers : ∀ e f, (e, f) ∈ h.registry.handlers → Hook.Proper number f

namespace Host.Tallied

theorem exists_hook (hh : h.Tallied number past) :
    ∃ c, Hook.at? h.workspace number = some c ∧ c.stats = past.counted number := by
  obtain ⟨c, hc, hstats⟩ := Option.map_eq_some_iff.mp hh.stats
  exact ⟨c, hc, hstats⟩

theorem congr (hh : h.Tallied number past) {past' : Journal}
    (hs : h₁.workspace.stats? number = h.workspace.stats? number)
    (hf : h₁.registry.handlers = h.registry.handlers)
    (hc : past'.counted number = past.counted number) : h₁.Tallied number past' where
  stats := by rw [hs, hc, hh.stats]
  handlers := by rw [hf]; exact hh.handlers

/-- Whatever serves a path is proper. -/
theorem handlerFor (hh : h.Tallied number past) (p : Path) :
    Hook.Proper number (h.registry.handlerFor p) :=
  (hh.exists_hook.elim fun c hc => Host.Ready.handlerFor
    ⟨by rw [Workspace.cache?_of_at? hc.1]; rfl, hh.handlers⟩ p)

end Host.Tallied

/-- A moment at which the handler of a hook is dispatched begins a dispatch that comes to what
becomes of the source, if what follows is long enough for it to end. -/
def Settles (number : Nat) (x : Moment) (rest : Journal) : Prop :=
  ∀ p m, x.what = .dispatched p m → x.host.registry.handlerFor p = Hook.handler number →
    ∃ (d : Dispatch) (f : Fate), d.path = p ∧ d.module = m ∧ d.before = x.host ∧
      d.record.journal <+: rest ∧ x.Meets number p f ∧ d.Fares number f

/-- A piece of a run after a past along which the counters of a hook agree with the journal. -/
structure Tallies (number : Nat) (past j : Journal) (h : Host) : Prop where
  moments : Journal.Every (fun past x => x.host.Tallied number past) past j
  last : h.Tallied number (past ++ j)
  dispatches : ∀ a x b, j = a ++ x :: b → Settles number x b

namespace Tallies

theorem nil (hh : h.Tallied number past) : Tallies number past [] h where
  moments := Journal.every_nil
  last := by rwa [List.append_nil]
  dispatches a x b he := by simp at he

theorem append (hj : Tallies number past j h) (hk : Tallies number (past ++ j) k h₁) :
    Tallies number past (j ++ k) h₁ where
  moments := Journal.every_append.mpr ⟨hj.moments, hk.moments⟩
  last := by
    rw [← List.append_assoc]
    exact hk.last
  dispatches a x b he := by
    rcases Journal.split_append he with ⟨b', hj', rfl⟩ | ⟨a', hk'⟩
    · intro p m hp hs
      obtain ⟨d, f, hpath, hmodule, hbefore, hrest, hd⟩ := hj.dispatches a x b' hj' p m hp hs
      exact ⟨d, f, hpath, hmodule, hbefore, hrest.trans (List.prefix_append b' k), hd⟩
    · exact hk.dispatches a' x b hk'

/-- A moment at which no handler is dispatched and nothing is counted. -/
theorem moment {what : Happening} (hh : h.Tallied number past)
    (hwhat : ∀ p m, what ≠ .dispatched p m)
    (hs : h₁.workspace.stats? number = h.workspace.stats? number)
    (hf : h₁.registry.handlers = h.registry.handlers) :
    Tallies number past [⟨what, h₁⟩] h₁ where
  moments := ⟨hh.congr hs hf rfl, trivial⟩
  last := hh.congr hs hf (Journal.counted_of_not_dispatched past hwhat)
  dispatches a x b he := by
    have hx : x ∈ [⟨what, h₁⟩] := by simp [he]
    rw [List.mem_singleton.mp hx]
    exact fun p m hp => absurd hp (hwhat p m)

end Tallies

/-- A piece of a run keeps to the counters of a hook, whatever has been counted before, if the names
of a module mean nothing special in it. -/
def Tallying (number : Nat) (h : Host) (j : Journal) (h₁ : Host) : Prop :=
  ∀ past, h.Tallied number past → j.Plain → Tallies number past j h₁

open Recorded in
/-- A dialogue of which no stretch counts anything. -/
theorem tallies_follow {α : Type} {part : Part} {f : Answerer}
    {x : Talk (Except Failure α × Workspace)}
    (hf : ∀ q h, Tallying number h (f q h).journal (f q h).host)
    (hx : Stretches (fun w w' => w'.stats? number = w.stats? number)
      (fun _ w w' => w'.stats? number = w.stats? number) w x)
    (hh : Host.Tallied ⟨h.registry, w⟩ number past) (hp : (follow part f x h).journal.Plain) :
    Tallies number past (follow part f x h).journal (follow part f x h).host := by
  induction hx generalizing h past with
  | done hs => exact .moment hh (by simp) hs rfl
  | failed hs => exact .moment hh (by simp) hs rfl
  | @ask w w' q next hs _ ih =>
    let asking : Host := ⟨h.registry, w'⟩
    have hran : Tallies number past [⟨.ran part h, asking⟩] asking := .moment hh (by simp) hs rfl
    have hasked : Tallies number (past ++ [⟨.ran part h, asking⟩]) [⟨.asked part q, asking⟩]
        asking := .moment hran.last (by simp) rfl rfl
    have hanswer := hf q asking _ hasked.last
      (hp.mono (by simp +contextual [follow, asking]))
    have hrest := ih (f q asking).result (f q asking).host.workspace (h := (f q asking).host)
      hanswer.last (hp.mono (by simp +contextual [follow, asking]))
    simpa [follow, asking] using hran.append (hasked.append (hanswer.append (by
      simpa using hrest)))

/-! ## Dispatches -/

namespace Dispatch

open Recorded

variable {d : Dispatch} {c : Hook}

theorem meets_opening (hd : d.handler = Hook.handler number)
    (hc : Hook.at? d.before.workspace number = some c) :
    d.opening.Meets number d.path (c.fate d.path d.before.workspace.world) :=
  ⟨d.module, c, rfl, hd, hc, rfl⟩

theorem not_serves_opening (hd : d.handler ≠ Hook.handler number) : ¬ d.opening.Serves number := by
  rintro ⟨p, m, ⟨⟩, hs⟩
  exact hd hs

/-- A dispatch whose talk goes on from a workspace that has counted it. -/
theorem tallies_of_counted (hh : d.before.Tallied number past)
    (hf : ∀ q h, Tallying number h (answerWithin d.depth q h).journal
      (answerWithin d.depth q h).host)
    (hp : d.record.journal.Plain)
    (hw : w.stats? number = some ((past ++ [d.opening]).counted number))
    (hx : Stretches (fun w w' => w'.stats? number = w.stats? number)
      (fun _ w w' => w'.stats? number = w.stats? number) w d.talk)
    (hs : d.handler = Hook.handler number →
      ∃ f, d.opening.Meets number d.path f ∧ d.Fares number f) :
    Tallies number past d.journal d.after := by
  have hrecord : Tallies number (past ++ [d.opening]) d.record.journal d.after :=
    tallies_follow hf hx ⟨hw, hh.handlers⟩ hp
  refine ⟨⟨hh, hrecord.moments⟩, by simpa [d.journal_eq] using hrecord.last, fun a x b he => ?_⟩
  rcases List.cons_eq_append_iff.mp he with ⟨-, hx⟩ | ⟨a', -, hx⟩
  · obtain ⟨rfl, rfl⟩ := List.cons.inj hx
    rintro p m ⟨⟩ hserves
    obtain ⟨f, hmeets, hfares⟩ := hs hserves
    exact ⟨d, f, rfl, rfl, rfl, List.prefix_rfl, hmeets, hfares⟩
  · exact hrecord.dispatches a' x b hx

/-- A dispatch counts what becomes of the source before anything else happens. -/
theorem tallies (hh : d.before.Tallied number past)
    (hf : ∀ q h, Tallying number h (answerWithin d.depth q h).journal
      (answerWithin d.depth q h).host)
    (hp : d.record.journal.Plain)
    (hfile : d.before.workspace.heap.Holds d.module (Script.key "filename")
      (.text d.path.text)) : Tallies number past d.journal d.after := by
  by_cases hd : d.handler = Hook.handler number
  · obtain ⟨c, hc, hstats⟩ := hh.exists_hook
    have hmeets := meets_opening hd hc
    have htalk := talk_of_handler hd hfile
    have hcounted := Journal.counted_of_meets past hmeets
    have hsettles : ∃ f, d.opening.Meets number d.path f ∧ d.Fares number f :=
      ⟨_, hmeets, fares hd hfile hc⟩
    cases c.chooses d.path d.before.workspace.world with
    | refuses hchoose hf' =>
      rw [Hook.serve_of_error hc hchoose] at htalk
      refine tallies_of_counted hh hf hp (w := d.before.workspace) ?_ (htalk ▸ .failed rfl)
        fun _ => hsettles
      rw [hcounted, hf', hh.stats]
      rfl
    | @skips k' w' hchoose _ hcount =>
      rw [Hook.serve_of_skip hc hchoose] at htalk
      refine tallies_of_counted hh hf hp
        (w := Hook.put { d.before.workspace with world := w' } number k') ?_ (htalk ▸ .done rfl)
        fun _ => hsettles
      rw [hcounted, Hook.stats?_put hc, hcount, hstats]
    | @runs k' w' o hchoose _ hcount =>
      rw [Hook.serve_of_choose hc hchoose] at htalk
      refine tallies_of_counted hh hf hp (w := Hook.starting number d.before.workspace k' w' o) ?_
        ?_ fun _ => hsettles
      · rw [hcounted, Hook.starting, Hook.stats?_put hc, hcount, hstats]
      · rw [htalk]
        exact (Hook.stretches_finish number d.realm d.module d.path o _).mono
          (fun _ _ hw => Workspace.Same.stats? (hw.at? number)) fun _ _ _ hw => hw.stats?
  · have hspares : Load.Spares number (d.handler d.realm d.module) :=
      ((hh.handlerFor d.path).resolve_left hd) d.realm d.module
    refine tallies_of_counted hh hf hp (w := d.before.workspace) ?_ ?_ fun hd' => absurd hd' hd
    · rw [Journal.counted_of_not_serves past (not_serves_opening hd), hh.stats]
    · exact (hspares d.before.workspace).mono (fun _ _ hw => hw.stats?) fun _ _ _ hw => hw.stats?

end Dispatch

open Recorded in
/-- A piece of a run that begins with the call of a module that is not registered. -/
theorem tallying_dispatched {d : Dispatch}
    (hf : ∀ q h, Tallying number h (answerWithin d.depth q h).journal
      (answerWithin d.depth q h).host)
    (hnone : h.registry.modules.get? d.path = none)
    (made : perform .making (answerWithin d.depth) (Host.newModule d.realm d.path) h =
      ⟨.ok d.module, h₁, j⟩)
    (hj : Tallying number h j h₁) (hd : d.before = h₁.withModule d.path d.module) :
    Tallying number h (⟨.called d.realm d.path, h⟩ :: (j ++ d.journal)) d.after := by
  intro past hh hp
  have hcalled : Tallies number past [⟨.called d.realm d.path, h⟩] h := .moment hh (by simp) rfl rfl
  have hmade := hj _ hcalled.last (hp.mono (by simp +contextual))
  have hplain : d.record.journal.Plain := hp.mono (by simp +contextual [d.journal_eq])
  -- the object of the module holds its path, for it is made in one stretch
  have hfile : d.before.workspace.heap.Holds d.module (Script.key "filename")
      (.text d.path.text) := by
    obtain ⟨m, w', hdone, hnew⟩ := newModule_furnished d.path
      (hp _ List.mem_cons_self d.realm d.path rfl hnone)
    rw [perform_of_done hdone] at made
    cases made
    rw [hd]
    exact hnew.filename
  have hbefore : d.before.Tallied number
      (past ++ [⟨.called d.realm d.path, h⟩] ++ j) := by
    rw [hd]
    exact hmade.last.congr rfl rfl rfl
  exact hcalled.append (hmade.append (Dispatch.tallies hbefore hf hplain hfile))

/-- Every piece of a run keeps to the counters of a hook. -/
theorem runLaw_tallying (number : Nat) : RunLaw (Tallying number) where
  nil _ _ hh _ := .nil hh
  append hj hk past hh hp :=
    have hj := hj past hh (hp.mono (by simp +contextual))
    hj.append (hk _ hj.last (hp.mono (by simp +contextual)))
  still _ _ hw _ hh _ := .moment hh hw rfl rfl
  stretch _ _ _ hw _ hh _ := .moment hh (by simp) (Workspace.Same.stats? (hw.at? number)) rfl
  dropped _ _ _ hh _ := .moment hh (by simp) rfl rfl
  evicted _ _ _ hh _ := .moment hh (by simp) rfl rfl
  cleared _ _ hh _ := .moment hh (by simp) rfl rfl
  hooked k h past hh _ := by
    obtain ⟨c, hc, -⟩ := hh.exists_hook
    exact .nil (hh.congr (Host.same_addHook hc k).stats? rfl rfl)
  edited _ _ _ hh _ := .nil (hh.congr rfl rfl rfl)
  dispatched hf hnone made hj hd := tallying_dispatched hf hnone made hj hd

end LoadHook
