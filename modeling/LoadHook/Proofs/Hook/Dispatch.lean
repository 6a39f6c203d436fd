import LoadHook.Proofs.Hook.Decision
import LoadHook.Proofs.Hook.Sessions
import LoadHook.Proofs.Registry.Failure

/-!
# What hooks remember along a run

A hook remembers an output at one place only: at the end of a dispatch of its handler, when the
output has been run as the body of the module. `Conserves` tells so of a piece of a run, with the
pieces of the dispatches that are nested in it, and every run in which the names of a module mean
nothing special conserves what its hooks remember.
-/
namespace LoadHook

open Script (Value RealmRef Ref)
open Load (Stretches)

variable {number : Nat} {s o : Path} {h h₁ g : Host} {j k : Journal} {w w' : Workspace}

/-- What the hook of a number remembers. -/
def Workspace.cache? (w : Workspace) (number : Nat) : Option OutputCache :=
  (Hook.at? w number).map Hook.cache

/-- The output that the hook of a number remembers for a source. -/
def Host.cached (h : Host) (number : Nat) (s : Path) : Option Path :=
  (h.workspace.cache? number).bind fun c => c.get? s

theorem Host.cached_congr (hc : h₁.workspace.cache? number = h.workspace.cache? number) (s : Path) :
    h₁.cached number s = h.cached number s := by rw [cached, cached, hc]

theorem Workspace.cache?_of_at? {c : Hook} (hc : Hook.at? w number = some c) :
    w.cache? number = some c.cache := by rw [cache?, hc, Option.map_some]

theorem Hook.cache?_put {c : Hook} (hc : at? w number = some c) (c' : Hook) :
    (put w number c').cache? number = some c'.cache :=
  Workspace.cache?_of_at? (at?_put hc c')

/-- Whatever a hook chooses, the same is remembered when it has come to its new state. -/
theorem Hook.cache?_put_of_choose {c c' : Hook} {choice : Choice} {v v' : World}
    (hc : at? w number = some c) (hchoose : c.choose s v = .ok (choice, c', v')) (u : World) :
    (put { w with world := u } number c').cache? number = w.cache? number := by
  rw [cache?_put (w := { w with world := u }) hc, Workspace.cache?_of_at? hc,
    choose_keeps hchoose]

theorem Workspace.Same.cache? (hw : w.Same number w') : w'.cache? number = w.cache? number := by
  rw [Workspace.cache?, hw, Workspace.cache?]

/-! ## Proper handlers -/

namespace Hook

/-- A handler that leaves the hook of a number alone, unless it is its own handler. -/
def Proper (number : Nat) (f : Handler) : Prop :=
  f = handler number ∨ ∀ realm module, Load.Spares number (f realm module)

theorem proper_handler (m : Nat) : Proper number (handler m) := by
  by_cases hm : m = number
  · exact .inl (by rw [hm])
  · exact .inr (spares_handler_of_ne hm)

end Hook

/-- The hook of a number is there, and the handlers are proper. -/
structure Host.Ready (h : Host) (number : Nat) : Prop where
  present : (h.workspace.cache? number).isSome
  handlers : ∀ e f, (e, f) ∈ h.registry.handlers → Hook.Proper number f

namespace Host.Ready

theorem exists_hook (hh : h.Ready number) : ∃ c, Hook.at? h.workspace number = some c := by
  obtain ⟨cache, hcache⟩ := Option.isSome_iff_exists.mp hh.present
  obtain ⟨c, hc, -⟩ := Option.map_eq_some_iff.mp hcache
  exact ⟨c, hc⟩

/-- Whatever serves a path is proper. -/
theorem handlerFor (hh : h.Ready number) (p : Path) :
    Hook.Proper number (h.registry.handlerFor p) := by
  rcases h.registry.handlerFor_cases p with ⟨e, he⟩ | hscript
  · exact hh.handlers e _ he
  · rw [hscript]
    exact .inr fun realm module => (Load.composed_scriptHandler realm module).secluded.spares

theorem of_cache (hh : h.Ready number)
    (hc : h₁.workspace.cache? number = h.workspace.cache? number)
    (hf : h₁.registry.handlers = h.registry.handlers) : h₁.Ready number :=
  ⟨by rw [hc]; exact hh.present, by rw [hf]; exact hh.handlers⟩

end Host.Ready

/-! ## Dispatches -/

namespace Dispatch

open Recorded

variable (d : Dispatch) (number : Nat)

/-- The running of an output as the body of the module, when a hook has come to a new state in a
world. -/
def execution (k' : Hook) (w' : World) (o : Path) : Record (Except Failure Value) :=
  follow .code (answerWithin d.depth) (Sandbox.run d.realm o d.module
    (Hook.starting number d.before.workspace k' w' o)) d.before

/-- The hook of a number has chosen an output, which has been run to its end as the body of the
module. -/
def Executes (o : Path) : Prop :=
  d.handler = Hook.handler number ∧ ∃ k k' w' v, Hook.at? d.before.workspace number = some k ∧
    k.choose d.path d.before.workspace.world = .ok (.run o, k', w') ∧
    (d.execution number k' w' o).result = .ok v

/-- The hook of a number compiles the source. -/
def Attempts (result : Except CompileError Path) : Prop :=
  d.handler = Hook.handler number ∧ ∃ k, Hook.at? d.before.workspace number = some k ∧
    k.choose d.path d.before.workspace.world = .ok (k.compile d.path d.before.workspace.world) ∧
    (k.attempt d.path d.before.workspace.world).result = result

/-- What a hook remembers at the end of a dispatch, by what it remembers before the last stretch:
an output that has been run as well, or the same if there was an error or no output to be run. -/
inductive Ends (g : Host) : Prop
  | kept : d.after.workspace.cache? number = g.workspace.cache? number →
    (d.handler = Hook.handler number →
      (∃ e, d.record.result = .error e) ∨ ∃ e, d.Attempts number (.error e)) → Ends g
  | stored {o : Path} {c : OutputCache} : d.Executes number o → d.record.result = .ok () →
    g.workspace.cache? number = some c →
    d.after.workspace.cache? number = some (c.insert d.path o) → Ends g

variable {d number}

/-- A hook that has nothing to run has failed to compile the source. -/
theorem attempts_of_skip {k k' : Hook} {w' : World} (hd : d.handler = Hook.handler number)
    (hk : Hook.at? d.before.workspace number = some k)
    (hc : k.choose d.path d.before.workspace.world = .ok (.skip, k', w')) :
    ∃ e, d.Attempts number (.error e) := by
  rcases Hook.choose_cases hc with he | ⟨o, -, he⟩
  · cases hr : (k.attempt d.path d.before.workspace.world).result with
    | error e => exact ⟨e, hd, k, hk, he ▸ hc, hr⟩
    | ok o => cases he.trans (Hook.compile_of_ok hr)
  · cases he

/-- A hook does not run an output if it fails to compile the source. -/
theorem Executes.not_aborted {e : CompileError} (hx : d.Executes number o) :
    ¬ d.Attempts number (.error e) := by
  rintro ⟨-, k, hk, hc, hr⟩
  obtain ⟨-, k₁, k', w', _, hk₁, hc₁, -⟩ := hx
  cases hk₁.symm.trans hk
  cases (hc₁.symm.trans hc).trans (congrArg _ (Hook.compile_of_error hr))

end Dispatch

/-- The journals along which the hook of a number remembers what it did, but for the outputs that
have been run. -/
inductive Conserves (number : Nat) : Host → Journal → Host → Prop
  | nil {h h₁ : Host} : h₁.workspace.cache? number = h.workspace.cache? number →
    Conserves number h [] h₁
  | append {h h₁ h₂ : Host} {j k : Journal} : Conserves number h j h₁ →
    Conserves number h₁ k h₂ → Conserves number h (j ++ k) h₂
  | moment {what : Happening} {h h₁ : Host} : (∀ p m, what ≠ .dispatched p m) →
    h₁.workspace.cache? number = h.workspace.cache? number →
    Conserves number h [⟨what, h₁⟩] h₁
  /-- A dispatch during which its path is dispatched no more. -/
  | dispatch {d : Dispatch} {h g : Host} {k : Journal} :
    d.before.workspace.cache? number = h.workspace.cache? number →
    d.record.journal = k ++ [⟨.ran .code g, d.after⟩] →
    d.record.journal.Omits d.path → Conserves number d.before k g → d.Ends number g →
    Conserves number h d.journal d.after

/-- A piece of a run conserves what the hook of a number remembers, if it begins with a ready host
and the names of a module mean nothing special in it. -/
def Conserving (number : Nat) (h : Host) (j : Journal) (h₁ : Host) : Prop :=
  h.Ready number → j.Plain → Conserves number h j h₁ ∧ h₁.Ready number

/-! ## Following a dialogue -/

section Follow

open Recorded

variable {α : Type} {part : Part} {f : Answerer} {x : Talk (Except Failure α × Workspace)}

/-- The last stretch of a dialogue that leaves a hook alone: the journal before it, and the host
when it begins. What is done to the result and the workspace at its end belongs to it. -/
structure LastStretch (number : Nat) (part : Part) (f : Answerer)
    (x : Talk (Except Failure α × Workspace)) (h : Host) (k : Journal) (g : Host) : Prop where
  journal : (follow part f x h).journal = k ++ [⟨.ran part g, (follow part f x h).host⟩]
  conserves : Conserves number h k g
  cache : (follow part f x h).host.workspace.cache? number = g.workspace.cache? number
  ready : (follow part f x h).host.Ready number
  changed {β : Type} {F : Except Failure α × Workspace → Except Failure β × Workspace}
    {r : Except Failure β} {v : Workspace} :
    F ((follow part f x h).result, (follow part f x h).host.workspace) = (r, v) →
    follow part f (x.bind fun a => .done (F a)) h =
      ⟨r, ⟨(follow part f x h).host.registry, v⟩,
        k ++ [⟨.ran part g, ⟨(follow part f x h).host.registry, v⟩⟩]⟩

theorem Dialogue.bind_done_id {Q A S β : Type} (x : Dialogue Q A S β) :
    (x.bind fun a => .done (id a)) = x := by
  induction x with
  | done a => rfl
  | ask q s next ih => simp only [Dialogue.bind_ask, ih]

/-- A dialogue that ends at once has one stretch. -/
theorem lastStretch_done {r : Except Failure α}
    (hw : w.cache? number = h.workspace.cache? number) (hh : h.Ready number) :
    LastStretch number part f (.done (r, w)) h [] h where
  journal := rfl
  conserves := .nil rfl
  cache := hw
  ready := hh.of_cache hw rfl
  changed {β F r' v} hF := by
    have hF : F (r, w) = (r', v) := hF
    simp only [Dialogue.bind_done, follow, hF]
    rfl

theorem exists_lastStretch
    (hf : ∀ q h, Conserving number h (f q h).journal (f q h).host)
    (hx : Stretches (Workspace.Same number) (fun _ => Workspace.Same number) w x)
    (hw : w.cache? number = h.workspace.cache? number) (hh : h.Ready number)
    {β : Type} (F : Except Failure α × Workspace → Except Failure β × Workspace)
    (hp : (follow part f (x.bind fun a => .done (F a)) h).journal.Plain) :
    ∃ k g, LastStretch number part f x h k g := by
  induction hx generalizing h with
  | done hs => exact ⟨[], h, lastStretch_done (hs.cache?.trans hw) hh⟩
  | failed hs => exact ⟨[], h, lastStretch_done (hs.cache?.trans hw) hh⟩
  | @ask w w' q next hs _ ih =>
    let asking : Host := ⟨h.registry, w'⟩
    let a := f q asking
    have hcache : asking.workspace.cache? number = h.workspace.cache? number :=
      hs.cache?.trans hw
    have hasking : asking.Ready number := hh.of_cache hcache rfl
    obtain ⟨ha, hready⟩ := hf q asking hasking (hp.mono (by simp +contextual [follow, asking]))
    obtain ⟨k, g, hl⟩ := ih a.result a.host.workspace rfl hready
      (hp.mono (by simp +contextual [follow, asking, a]))
    have hran : Conserves number h [⟨.ran part h, asking⟩] asking := .moment (by simp) hcache
    have hasked : Conserves number asking [⟨.asked part q, asking⟩] asking :=
      .moment (by simp) rfl
    refine ⟨[⟨.ran part h, asking⟩] ++ ([⟨.asked part q, asking⟩] ++ (a.journal ++ k)), g, ?_,
      hran.append (hasked.append (ha.append hl.conserves)), hl.cache, hl.ready, ?_⟩
    · simp [follow, hl.journal, asking, a]
    · intro β F r v hF
      simp [follow, hl.changed hF, asking, a, Record.after]

end Follow

/-! ## What a dispatch comes to -/

/-- What a hook remembers when an output has been run. -/
def Hook.finished (number : Nat) (s o : Path) :
    Except Failure Value × Workspace → Except Failure Unit × Workspace
  | (.ok _, w) => (.ok (), match at? w number with
      | none => w
      | some k => put w number (k.remember s o))
  | (.error e, w) => (.error e, w)

theorem Hook.finish_eq (realm : RealmRef) (module : Ref) (w : Workspace) :
    finish number realm module s o w =
      (Sandbox.run realm o module w).bind fun a => .done (finished number s o a) := by
  change Load.bind _ _ w = _
  refine congrArg (Dialogue.bind _) (funext fun a => ?_)
  obtain ⟨r, w⟩ := a
  cases r <;> rfl

namespace Dispatch

open Recorded

variable {d : Dispatch}

/-- A dispatch of which all but the last stretch conserves what a hook remembers. -/
def Settles (d : Dispatch) (number : Nat) : Prop :=
  ∃ k g, d.record.journal = k ++ [⟨.ran .code g, d.after⟩] ∧ Conserves number d.before k g ∧
    d.Ends number g ∧ d.after.Ready number

/-- The dialogue of the handler that is dispatched. -/
def talk (d : Dispatch) : Talk (Except Failure Unit × Workspace) :=
  d.handler d.realm d.module d.before.workspace

theorem record_eq : d.record = follow .code (answerWithin d.depth) d.talk d.before := rfl

theorem settles_of_lastStretch
    (hl : LastStretch number .code (answerWithin d.depth) d.talk d.before k g)
    (he : d.handler = Hook.handler number →
      (∃ e, d.record.result = .error e) ∨ ∃ e, d.Attempts number (.error e)) :
    d.Settles number :=
  ⟨k, g, hl.journal, hl.conserves, .kept hl.cache he, hl.ready⟩

/-- A handler that ends at once without changing what is remembered. -/
theorem settles_of_done {r : Except Failure Unit} (hh : d.before.Ready number)
    (ht : d.talk = .done (r, w)) (hw : w.cache? number = d.before.workspace.cache? number)
    (he : (∃ e, r = .error e) ∨ ∃ e, d.Attempts number (.error e)) : d.Settles number := by
  have hr : d.record.result = r := by
    rw [record_eq, ht]
    rfl
  refine settles_of_lastStretch (k := []) (g := d.before) ?_ fun _ => hr ▸ he
  rw [ht]
  exact lastStretch_done hw hh

section Settling

variable (hf : ∀ q h, Conserving number h (answerWithin d.depth q h).journal
  (answerWithin d.depth q h).host)
include hf

/-- A hook that runs an output remembers it at the end, if there is no error. -/
theorem settles_of_run {c k' : Hook} {w' : World} (hd : d.handler = Hook.handler number)
    (hh : d.before.Ready number) (hp : d.record.journal.Plain)
    (hk : Hook.at? d.before.workspace number = some c)
    (hc : c.choose d.path d.before.workspace.world = .ok (.run o, k', w'))
    (ht : d.talk = Hook.finish number d.realm d.module d.path o
      (Hook.starting number d.before.workspace k' w' o)) : d.Settles number := by
  have hrecord := d.record_eq
  rw [ht, Hook.finish_eq] at hrecord
  have hstarting : (Hook.starting number d.before.workspace k' w' o).cache? number =
      d.before.workspace.cache? number := Hook.cache?_put_of_choose hk hc _
  have hrun : Load.Spares number (Sandbox.run d.realm o d.module) :=
    (Load.composed_run d.realm o d.module).secluded.spares
  obtain ⟨k, g, hl⟩ := exists_lastStretch hf
    (hrun (Hook.starting number d.before.workspace k' w' o)) hstarting hh _ (hrecord ▸ hp)
  -- the running of the output, of which the handler changes the end
  let e := d.execution number k' w' o
  have hcache : e.host.workspace.cache? number = g.workspace.cache? number := hl.cache
  have hready : e.host.Ready number := hl.ready
  have hends {r : Except Failure Unit} {v : Workspace}
      (hv : Hook.finished number d.path o (e.result, e.host.workspace) = (r, v)) : d.record =
        ⟨r, ⟨e.host.registry, v⟩, k ++ [⟨.ran .code g, ⟨e.host.registry, v⟩⟩]⟩ :=
    hrecord.trans (hl.changed hv)
  cases hr : e.result with
  | error failure =>
    have hrec := hends (r := .error failure) (v := e.host.workspace) (by rw [hr, Hook.finished])
    have hafter : d.after = e.host := by rw [after, hrec]
    refine ⟨k, g, by rw [after, hrec], hl.conserves, .kept ?_ fun _ => ?_, ?_⟩
    · rw [hafter, hcache]
    · exact .inl ⟨failure, by rw [hrec]⟩
    · rw [hafter]
      exact hready
  | ok v =>
    obtain ⟨c₁, hc₁⟩ := hready.exists_hook
    have hrec := hends (r := .ok ())
      (v := Hook.put e.host.workspace number (c₁.remember d.path o))
      (by rw [hr, Hook.finished, hc₁])
    have hstored : d.after.workspace.cache? number = some (c₁.cache.insert d.path o) := by
      rw [after, hrec]
      exact Hook.cache?_put hc₁ _
    have hbefore : g.workspace.cache? number = some c₁.cache :=
      hcache.symm.trans (Workspace.cache?_of_at? hc₁)
    refine ⟨k, g, by rw [after, hrec], hl.conserves,
      .stored ⟨hd, c, k', w', v, hk, hc, hr⟩ (by rw [hrec]) hbefore hstored, ?_, ?_⟩
    · rw [hstored]
      rfl
    · rw [after, hrec]
      exact hready.handlers

/-- Where the object of a module holds its path, the dispatch of its handler settles. -/
theorem settles (hh : d.before.Ready number) (hp : d.record.journal.Plain)
    (hfile : d.before.workspace.heap.Holds d.module (Script.key "filename") (.text d.path.text)) :
    d.Settles number := by
  by_cases hd : d.handler = Hook.handler number
  · have ht : d.talk = Hook.serve number d.realm d.module d.path d.before.workspace := by
      rw [talk, hd, Hook.handler_eq, Load.bind_of_done (filename_of_holds_path hfile)]
    obtain ⟨k, hk⟩ := hh.exists_hook
    cases hchoose : k.choose d.path d.before.workspace.world with
    | error cause =>
      exact settles_of_done hh (ht.trans (Hook.serve_of_error hk hchoose)) rfl (.inl ⟨_, rfl⟩)
    | ok r =>
      obtain ⟨choice, k', w'⟩ := r
      cases choice with
      | skip =>
        exact settles_of_done hh (ht.trans (Hook.serve_of_skip hk hchoose))
          (Hook.cache?_put_of_choose hk hchoose w') (.inr (attempts_of_skip hd hk hchoose))
      | run o =>
        exact settles_of_run hf hd hh hp hk hchoose (ht.trans (Hook.serve_of_choose hk hchoose))
  · have hx := (hh.handlerFor d.path).resolve_left hd d.realm d.module d.before.workspace
    have hsame : (follow .code (answerWithin d.depth) (d.talk.bind fun a => .done (id a))
        d.before).journal.Plain := by
      rw [Dialogue.bind_done_id]
      exact hp
    obtain ⟨k, g, hl⟩ := exists_lastStretch hf hx rfl hh id hsame
    exact settles_of_lastStretch hl fun h => absurd h hd

end Settling

end Dispatch

end LoadHook
