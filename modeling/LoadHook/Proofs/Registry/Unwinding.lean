import LoadHook.Proofs.Module.Failure
import LoadHook.Proofs.Module.Making
import LoadHook.Proofs.Registry.Failure

/-!
# Errors on their way out

Loads are nested: the handler of a module comes to ask for another one, whose handler comes to ask
for a third. If the innermost load fails, its failure goes into the asking script as a thrown
value, and as long as no script catches it that value goes on from load to load. `Nested` says
which loads are in progress inside one another and let errors pass, `Nested.unwinds` what comes out
of them, and `Host.surfaces` what is left of the failure at the outside, or where it is caught.
-/
namespace LoadHook

open Script (Value RealmRef Ref)
open Host (loadWithin answerWithin homeRealm depthLimit)

/-! ## Steps of a load that are under way -/

namespace Host

variable {α : Type} {f : Answerer} {d : Talk (Except Failure α × Workspace)} {g : Registry}
  {q : Requirement} {w : Workspace} {next : Except Value Value → Workspace →
    Talk (Except Failure α × Workspace)}

/-- Goes on with a step of a load from where it stands. -/
def resume (f : Answerer) (d : Talk (Except Failure α × Workspace)) (g : Registry) :
    Except Failure α × Host :=
  let ((r, w), g) := d.run (fun q w g =>
    let (a, h) := f q ⟨g, w⟩
    (a, h.workspace, h.registry)) g
  (r, ⟨g, w⟩)

theorem perform_eq_resume (f : Answerer) (x : Load α) (h : Host) :
    h.perform f x = resume f (x h.workspace) h.registry := rfl

@[simp] theorem resume_done (r : Except Failure α) : resume f (.done (r, w)) g = (r, ⟨g, w⟩) := rfl

@[simp] theorem resume_ask : resume f (.ask q w next) g =
    resume f (next (f q ⟨g, w⟩).1 (f q ⟨g, w⟩).2.workspace) (f q ⟨g, w⟩).2.registry := rfl

theorem perform_of_done {x : Load α} {h : Host} {r : Except Failure α}
    (hx : x h.workspace = .done (r, w)) : h.perform f x = (r, ⟨h.registry, w⟩) := by
  rw [perform_eq_resume, hx, resume_done]

/-- What is asked for under way in a step of a load: the requirement, the host at that moment, and
how the step goes on with the answer. -/
inductive Reaches (f : Answerer) : Talk (Except Failure α × Workspace) → Registry → Requirement →
    Host → (Except Value Value → Workspace → Talk (Except Failure α × Workspace)) → Prop
  | here (q : Requirement) (w : Workspace) (next) (g : Registry) :
      Reaches f (.ask q w next) g q ⟨g, w⟩ next
  | later {q q' : Requirement} {w : Workspace} {next next'} {g : Registry} {h' : Host} :
      Reaches f (next (f q ⟨g, w⟩).1 (f q ⟨g, w⟩).2.workspace) (f q ⟨g, w⟩).2.registry q' h' next' →
      Reaches f (.ask q w next) g q' h' next'

/-- A step of a load goes on with the answers to what it asks for. -/
theorem Reaches.resume_eq {h : Host} (hd : Reaches f d g q h next) :
    resume f d g = resume f (next (f q h).1 (f q h).2.workspace) (f q h).2.registry := by
  induction hd with
  | here => rfl
  | later _ ih => rw [resume_ask, ih]

/-! ## What stays registered -/

variable {p : Path} {h : Host}

theorem isSome_answerWithin (n : Nat) (q : Requirement)
    (hp : (h.registry.modules.get? p).isSome) :
    ((answerWithin n q h).2.registry.modules.get? p).isSome := by
  have hplayed := (Recorded.plays_within n).2 .code q h
  have htells := (Recorded.outcome_within n).2 q h
  have hhost : (Recorded.answerWithin n q h).host = (answerWithin n q h).2 :=
    congrArg Prod.snd htells
  rw [← hhost]
  exact hplayed.kept hp

theorem isSome_perform (n : Nat) (x : Load α) (hp : (h.registry.modules.get? p).isSome) :
    ((h.perform (answerWithin n) x).2.registry.modules.get? p).isSome := by
  have hplayed := Recorded.played_perform (Recorded.plays_within n).2 .code x h
  have htells := Recorded.outcome_perform (Recorded.outcome_within n).2 .code x h
  have hhost : (Recorded.perform .code (Recorded.answerWithin n) x h).host =
      (h.perform (answerWithin n) x).2 := congrArg Prod.snd htells
  rw [← hhost]
  exact hplayed.kept hp

theorem Reaches.isSome {n : Nat} (hd : Reaches (answerWithin n) d g q h next)
    (hp : (g.modules.get? p).isSome) : (h.registry.modules.get? p).isSome := by
  induction hd with
  | here => exact hp
  | later _ ih => exact ih (isSome_answerWithin n _ hp)

end Host

/-! ## Answers to what is asked for -/

/-- A load: how deep other loads may be nested in it, for code of which realm, of which path, and
from which host on. -/
structure Errand where
  depth : Nat
  realm : RealmRef
  path : Path
  host : Host

namespace Errand

variable {a b c : Errand} {e : Failure} {h : Host} {q : Requirement} {text : String}

/-- What comes of a load. -/
def load (a : Errand) : Except Failure Ref × Host := loadWithin a.depth a.realm a.path a.host

/-- A load that fails was of a module that is not registered. -/
theorem fresh_of_failed (ha : a.load = (.error e, h)) :
    a.host.registry.modules.get? a.path = none := by
  cases hp : a.host.registry.modules.get? a.path with
  | none => rfl
  | some m =>
    cases (Host.loadWithin_of_registered hp a.depth).symm.trans ha

/-- What is registered before a load is registered after it. -/
theorem isSome_load {p : Path} (hp : (a.host.registry.modules.get? p).isSome) :
    (a.load.2.registry.modules.get? p).isSome := by
  have hplayed := (Recorded.plays_within a.depth).1.played a.realm a.path a.host
  have hhost : (Recorded.loadWithin a.depth a.realm a.path a.host).host = a.load.2 :=
    congrArg Prod.snd ((Recorded.outcome_within a.depth).1 a.realm a.path a.host)
  rw [← hhost]
  exact hplayed.kept hp

/-- Whoever asks for a module whose load fails is answered with a thrown error of the same text,
and nothing becomes registered or is removed on the way. -/
theorem answer_of_failed (hq : b.host.resolve q.specifier q.dir = .ok b.path)
    (hr : b.realm = q.realm) (hb : b.load = (.error e, h)) (he : e.Means h.workspace.heap text) :
    ∃ r w, answerWithin (b.depth + 1) q b.host = (.error (.obj r), ⟨h.registry, w⟩) ∧
      w.heap.Shows r text := by
  obtain ⟨r, heap, hthrown, -, hshows⟩ := throwable_means q.realm he
  refine ⟨r, { h.workspace with heap }, ?_, hshows⟩
  have hload : loadWithin b.depth q.realm b.path b.host = (.error e, h) := hr ▸ hb
  have hrequired : Host.requireWith (loadWithin b.depth) (answerWithin b.depth) q b.host =
      (.error e, h) := by
    simp only [Host.requireWith, hq, hload]
  have hperformed := Host.perform_of_done (f := answerWithin b.depth) hthrown
  rw [answerWithin, Host.answerWith, hrequired]
  simp only [hperformed]

end Errand

/-! ## Loads in progress inside one another -/

/-- In a load the handler of its module `m` comes to ask for another module, which is not part of
the load yet: the requirement, how the handler goes on with the answer, and the load that
answers. -/
structure Asking (a : Errand) (m : Ref) (made : Host) (q : Requirement)
    (next : Except Value Value → Workspace → Talk (Except Failure Unit × Workspace)) (b : Errand) :
    Prop where
  depth : a.depth = b.depth + 2
  fresh : a.host.registry.modules.get? a.path = none
  making : a.host.perform (answerWithin (b.depth + 1)) (Host.newModule a.realm a.path) =
    (.ok m, made)
  reaches : Host.Reaches (answerWithin (b.depth + 1))
    (made.registry.handlerFor a.path a.realm m made.workspace)
    (made.withModule a.path m).registry q b.host next
  realm : b.realm = q.realm
  leads : b.host.resolve q.specifier q.dir = .ok b.path

namespace Asking

variable {a b : Errand} {m : Ref} {made h : Host} {q : Requirement} {text : String}
  {next : Except Value Value → Workspace → Talk (Except Failure Unit × Workspace)}

/-- The module that asks is registered, and so is all that was registered before its load. -/
theorem isSome (hb : Asking a m made q next b) {p : Path}
    (hp : p = a.path ∨ (a.host.registry.modules.get? p).isSome) :
    (b.host.registry.modules.get? p).isSome := by
  refine hb.reaches.isSome ?_
  have hmade : (made.registry.modules.get? p).isSome ∨ p = a.path := by
    refine hp.symm.imp_left fun hp => ?_
    have hkept := Host.isSome_perform (b.depth + 1) (Host.newModule a.realm a.path) hp
    rwa [hb.making] at hkept
  by_cases hs : a.path.same p
  · exact Option.isSome_iff_exists.mpr ⟨m, PathMap.get?_insert_of_same hs⟩
  · rcases hmade with hmade | rfl
    · have hother := PathMap.get?_insert_of_not_same (m := made.registry.modules) (a := m)
        (Bool.eq_false_iff.mpr hs)
      exact hother ▸ hmade
    · exact absurd (Path.same_refl _) hs

/-- The load of the module that asks is what its handler comes to once it has been answered. -/
theorem load_eq (hb : Asking a m made q next b) :
    a.load =
      match Host.resume (answerWithin (b.depth + 1))
        (next (answerWithin (b.depth + 1) q b.host).1
          (answerWithin (b.depth + 1) q b.host).2.workspace)
        (answerWithin (b.depth + 1) q b.host).2.registry with
      | (.error e, h) => (.error e, h.withoutModule a.path)
      | (.ok (), h) =>
        match h.perform (answerWithin (b.depth + 1))
          (Load.setProperty a.realm m "loaded" (.bool true)) with
        | (.error e, h) => (.error e, h)
        | (.ok (), h) => (.ok m, h) := by
  rw [Errand.load, hb.depth, loadWithin, hb.fresh]
  simp only [Host.loadNew, hb.making, Host.populate, Host.perform_eq_resume]
  rw [← hb.reaches.resume_eq]
  rfl

end Asking

/-- The handler that asks does not catch: answered with a thrown error it throws the same one, and
the text of the error stays as it is. -/
def Passes (b : Errand) (q : Requirement)
    (next : Except Value Value → Workspace → Talk (Except Failure Unit × Workspace)) : Prop :=
  ∀ r h text, answerWithin (b.depth + 1) q b.host = (.error (.obj r), h) →
    h.workspace.heap.Shows r text →
    ∃ w, next (.error (.obj r)) h.workspace = .done (.error (.thrown (.obj r)), w) ∧
      w.heap.Shows r text

/-- Loads in progress inside one another, none of which catches what is thrown: the outermost one,
the paths of all but the innermost one, and the innermost one. -/
inductive Nested : Errand → List Path → Errand → Prop
  | innermost (a : Errand) : Nested a [] a
  | inside {a b c : Errand} {m : Ref} {made : Host} {q : Requirement} {next}
      {paths : List Path} : Asking a m made q next b → Passes b q next → Nested b paths c →
      Nested a (a.path :: paths) c

namespace Nested

variable {a c : Errand} {paths : List Path} {e : Failure} {h : Host} {text : String}

/-- Around the innermost load every module is registered. -/
theorem isSome (hn : Nested a paths c) {p : Path}
    (hp : p ∈ paths ∨ (a.host.registry.modules.get? p).isSome) :
    (c.host.registry.modules.get? p).isSome := by
  induction hn with
  | innermost a => simpa using hp
  | inside hb _ _ ih =>
    refine ih ?_
    rcases hp with hp | hp
    · rcases List.mem_cons.mp hp with rfl | hp
      · exact .inr (hb.isSome (.inl rfl))
      · exact .inl hp
    · exact .inr (hb.isSome (.inr hp))

/-- A load that is part of another one, and fails, is of a path under which nothing around it is
registered. -/
theorem not_same (hn : Nested a paths c) (hc : c.load = (.error e, h)) {p : Path} (hp : p ∈ paths) :
    p.same c.path = false := by
  obtain ⟨m, hm⟩ := Option.isSome_iff_exists.mp (hn.isSome (.inl hp))
  have hfresh := Errand.fresh_of_failed hc
  exact Bool.eq_false_iff.mpr fun hs =>
    Bool.eq_false_iff.mp (PathMap.not_same_of_get? hfresh hm) (Path.same_symm hs)

end Nested

/-- What comes out of nested loads of which the innermost one has failed: a failure of the same
text, thrown unless it is the innermost one's own. None of the modules around it is registered any
more, and its own module is if and only if its own load has left it so. -/
structure Unwound (paths : List Path) (c : Errand) (e : Failure) (h : Host) (text : String)
    (e' : Failure) (h' : Host) : Prop where
  means : e'.Means h'.workspace.heap text
  own : paths = [] → e' = e ∧ h' = h
  thrown : paths ≠ [] → ∃ v, e' = .thrown v
  gone : ∀ p ∈ paths, h'.registry.modules.get? p = none
  innermost : h'.registry.modules.get? c.path = h.registry.modules.get? c.path

/-- A failure that nobody catches comes out of all loads that are in progress around it. -/
theorem Nested.unwinds {a c : Errand} {paths : List Path} {e : Failure} {h : Host} {text : String}
    (hn : Nested a paths c) (hc : c.load = (.error e, h)) (he : e.Means h.workspace.heap text) :
    ∃ e' h', a.load = (.error e', h') ∧ Unwound paths c e h text e' h' := by
  induction hn with
  | innermost c => exact ⟨e, h, hc, he, fun _ => ⟨rfl, rfl⟩, by simp, by simp, rfl⟩
  | @inside a b c m made q next paths hb hpass hn ih =>
    obtain ⟨e₁, h₁, hload, hout⟩ := ih hc
    obtain ⟨r, w, hanswer, hshows⟩ := Errand.answer_of_failed hb.leads hb.realm hload hout.means
    obtain ⟨w', hnext, hshows'⟩ := hpass r _ text hanswer hshows
    have hfailed : a.load =
        (.error (.thrown (.obj r)), (⟨h₁.registry, w'⟩ : Host).withoutModule a.path) := by
      rw [hb.load_eq]
      simp only [hanswer, hnext, Host.resume_done]
    have hother : a.path.same c.path = false :=
      (Nested.inside hb hpass hn).not_same hc List.mem_cons_self
    refine ⟨_, _, hfailed, ⟨r, rfl, hshows'⟩, by simp, fun _ => ⟨_, rfl⟩, fun p hp => ?_, ?_⟩
    · rcases List.mem_cons.mp hp with rfl | hp
      · exact PathMap.get?_erase_of_same (Path.same_refl _)
      · exact PathMap.get?_erase_of_none (hout.gone p hp)
    · rw [← hout.innermost]
      exact PathMap.get?_erase_of_not_same hother

/-! ## Where errors end -/

namespace Errand

variable {c : Errand}

/-- The handler of the module fails. -/
def Mishandled (c : Errand) : Prop :=
  ∃ n m made e, c.depth = n + 1 ∧ c.host.registry.modules.get? c.path = none ∧
    c.host.perform (answerWithin n) (Host.newModule c.realm c.path) = (.ok m, made) ∧
    ((made.withModule c.path m).perform (answerWithin n)
      (made.registry.handlerFor c.path c.realm m)).1 = .error e

/-- If it is the handler that fails, the module is removed. -/
theorem gone_of_mishandled (hc : c.Mishandled) :
    c.load.2.registry.modules.get? c.path = none := by
  obtain ⟨n, m, made, e, hdepth, hfresh, hmade, hfailed⟩ := hc
  rw [load, hdepth, loadWithin, hfresh]
  simp only [Host.loadNew, hmade, Host.populate]
  generalize hrun : Host.perform _ _ _ = ran
  obtain ⟨result, h⟩ := ran
  have hresult : result = .error e := by
    rw [← hfailed]
    exact (congrArg Prod.fst hrun).symm
  subst hresult
  exact PathMap.get?_erase_of_same (Path.same_refl _)

end Errand

namespace Host

/-- An entry whose load fails with a text fails with an error of that text, and nothing becomes
registered or is removed on the way out. -/
theorem enter_of_failed {p : Path} {h h' : Host} {e : Failure} {text : String}
    (hload : (⟨depthLimit, homeRealm, p, h⟩ : Errand).load = (.error e, h'))
    (he : e.Means h'.workspace.heap text) :
    ∃ err, h.enter p = (.error err, h') ∧ err.message = text ∧
      ((∃ v, e = .thrown v) → ∃ stack, err = .exception text stack) ∧
      ∀ err', e = .error err' → err = err' := by
  obtain ⟨err, hcaught, hmessage⟩ := caught_of_means homeRealm he
  refine ⟨err, ?_, hmessage⟩
  have hload' : load homeRealm p h = (.error e, h') := hload
  simp only [enter, hload', conclude, perform_of_done hcaught]

/-- What an entry comes to if the failure of a load that is nested in it is not caught. -/
structure Uncaught (p : Path) (h : Host) (paths : List Path) (c : Errand) (e : Failure) (h₁ : Host)
    (text : String) (err : LoadError) (h' : Host) : Prop where
  runMain : h.runMain p = (.error err, h')
  loadExports : h.loadExports p = (.error err, h')
  message : err.message = text
  exception : (paths ≠ [] ∨ ∃ v, e = .thrown v) → ∃ stack, err = .exception text stack
  kind : paths = [] → ∀ err', e = .error err' → err = err'
  gone : ∀ q ∈ paths, h'.registry.modules.get? q = none
  innermost : h'.registry.modules.get? c.path = h₁.registry.modules.get? c.path
  mishandled : c.Mishandled → h'.registry.modules.get? c.path = none
  kept : ∀ q, (h.registry.modules.get? q).isSome → (h'.registry.modules.get? q).isSome

/-- What a module that asks for another one is told if a load that is nested in it fails, and how
it goes on. -/
structure Caught (top : Errand) (outer : List Path) (a : Errand) (m : Ref) (q : Requirement)
    (next : Except Value Value → Workspace → Talk (Except Failure Unit × Workspace))
    (b : Errand) (inner : List Path) (c : Errand) (h₁ : Host) (text : String) (r : Ref)
    (h' : Host) : Prop where
  answer : answerWithin (b.depth + 1) q b.host = (.error (.obj r), h')
  shows : h'.workspace.heap.Shows r text
  caught : ∀ realm, ∃ stack, Load.caught realm (.thrown (.obj r)) h'.workspace =
    .done (.ok (.exception text stack), h'.workspace)
  gone : ∀ p ∈ inner, h'.registry.modules.get? p = none
  innermost : h'.registry.modules.get? c.path = h₁.registry.modules.get? c.path
  mishandled : c.Mishandled → h'.registry.modules.get? c.path = none
  kept : ∀ p, p ∈ outer ∨ p = a.path ∨ (top.host.registry.modules.get? p).isSome →
    (h'.registry.modules.get? p).isSome
  goesOn : a.load =
    match resume (answerWithin (b.depth + 1)) (next (.error (.obj r)) h'.workspace) h'.registry with
    | (.error e, h) => (.error e, h.withoutModule a.path)
    | (.ok (), h) =>
      match h.perform (answerWithin (b.depth + 1))
        (Load.setProperty a.realm m "loaded" (.bool true)) with
      | (.error e, h) => (.error e, h)
      | (.ok (), h) => (.ok m, h)

variable {c : Errand} {e : Failure} {h₁ : Host} {text : String}

theorem uncaught (hc : c.load = (.error e, h₁)) (he : e.Means h₁.workspace.heap text) {h : Host}
    {p entry : Path} {paths : List Path} (hp : absolute h.workspace.world.tree p = .ok entry)
    (hn : Nested ⟨depthLimit, homeRealm, entry, h⟩ paths c) :
    ∃ err h', Uncaught p h paths c e h₁ text err h' := by
  obtain ⟨e', h', hload, hout⟩ := hn.unwinds hc he
  obtain ⟨err, henter, hmessage, hthrown, hkind⟩ := enter_of_failed hload hout.means
  refine ⟨err, h', ?runMain, ?loadExports, hmessage, fun hex => hthrown ?thrown,
    fun hnone err' he' => hkind err' ?own, hout.gone, hout.innermost, fun hm => ?mishandled,
    fun q hq => ?kept⟩
  case runMain =>
    simp only [runMain, hp, henter]
    rfl
  case loadExports => simp only [loadExports, hp, henter]
  case thrown =>
    by_cases hnone : paths = []
    · rw [(hout.own hnone).1]
      exact hex.resolve_left (absurd hnone)
    · exact hout.thrown hnone
  case own => rw [(hout.own hnone).1, he']
  case mishandled =>
    have hgone := Errand.gone_of_mishandled hm
    rwa [hc, ← hout.innermost] at hgone
  case kept =>
    have hkept := Errand.isSome_load (a := ⟨depthLimit, homeRealm, entry, h⟩) hq
    rwa [hload] at hkept

theorem caught (hc : c.load = (.error e, h₁)) (he : e.Means h₁.workspace.heap text)
    {top a b : Errand} {outer inner : List Path} {m : Ref} {made : Host} {q : Requirement} {next}
    (ha : Nested top outer a) (hb : Asking a m made q next b) (hn : Nested b inner c) :
    ∃ r h', Caught top outer a m q next b inner c h₁ text r h' := by
  obtain ⟨e', h', hload, hout⟩ := hn.unwinds hc he
  obtain ⟨r, w, hanswer, hshows⟩ := Errand.answer_of_failed hb.leads hb.realm hload hout.means
  refine ⟨r, ⟨h'.registry, w⟩, hanswer, hshows, fun realm => ?caught, hout.gone, hout.innermost,
    fun hm => ?mishandled, fun p hp => ?kept, ?goesOn⟩
  case caught =>
    obtain ⟨stack, hd⟩ := Load.describe_of_shows realm hshows
    exact ⟨stack, Load.script_of_done hd⟩
  case mishandled =>
    have hgone := Errand.gone_of_mishandled hm
    rwa [hc, ← hout.innermost] at hgone
  case kept =>
    have hinside : p = a.path ∨ (a.host.registry.modules.get? p).isSome := by
      rcases hp with hp | hp | hp
      · exact .inr (ha.isSome (.inl hp))
      · exact .inl hp
      · exact .inr (ha.isSome (.inr hp))
    have hkept := Errand.isSome_load (a := b) (hb.isSome hinside)
    rwa [hload] at hkept
  case goesOn => rw [hb.load_eq, hanswer]

/-- A failure of a load survives any number of loads around it.

If nobody catches it, the entry fails with an exception of the same text, and with the error itself
if it is the entry's own; none of the modules around the failed load is registered afterwards. Who
catches it is told the same text, finds the modules between removed and itself and all modules
around it still registered, and goes on. The failed module itself is removed if its handler has
failed, and stays as its own load has left it in any case. -/
theorem surfaces (hc : c.load = (.error e, h₁)) (he : e.Means h₁.workspace.heap text) :
    (∀ h p entry paths, absolute h.workspace.world.tree p = .ok entry →
      Nested ⟨depthLimit, homeRealm, entry, h⟩ paths c →
      ∃ err h', Uncaught p h paths c e h₁ text err h') ∧
    ∀ top outer a m made q next b inner, Nested top outer a → Asking a m made q next b →
      Nested b inner c → ∃ r h', Caught top outer a m q next b inner c h₁ text r h' :=
  ⟨fun _ _ _ _ hp hn => uncaught hc he hp hn,
    fun _ _ _ _ _ _ _ _ _ ha hb hn => caught hc he ha hb hn⟩

/-- A handler that asks for a module and is done if it gets it. -/
def relay (specifier : String) : Handler := fun realm _ w =>
  .ask ⟨specifier, "/", realm⟩ w fun answer w =>
    .done (match answer with
      | .ok _ => .ok ()
      | .error v => .error (.thrown v), w)

/-- A world with one file. -/
def relayWorld : World := ⟨⟨[(["b.bad".toList], .file .empty ⟨0⟩ 0)], []⟩, [], ⟨0⟩, 1, #[]⟩

/-- A host for modules that ask for a broken one. -/
def relayHost : Host :=
  ((start relayWorld).register "relay" (relay "/b.bad")).register "bad"
    fun _ _ => Load.fail (.malformed "no value")

/-- A module that asks for a broken one fails with the text of its failure. -/
theorem surfaces_relay :
    ∃ (c : Errand) (h₁ : Host),
      c.load = (.error (.error (.malformed "no value")), h₁) ∧
      Nested ⟨depthLimit, homeRealm, "/a.relay", relayHost⟩ ["/a.relay"] c ∧
      ∃ err h', Uncaught "/a.relay" relayHost ["/a.relay"] c (.error (.malformed "no value")) h₁
        "module exports are not valid JSON: no value" err h' := by
  have hplain : relayHost.workspace.heap.PlainFor homeRealm := plainFor_start relayWorld
  obtain ⟨m, w, hmade, hm⟩ := newModule_furnished (p := "/a.relay") hplain
  obtain ⟨n, v, hmade', -⟩ := newModule_furnished (p := "/b.bad") (hplain.extends hm.old)
  have hworld : w.world = relayWorld := by rw [hm.heap]; rfl
  let asking : Host := ⟨relayHost.registry.insert "/a.relay" m, w⟩
  let c : Errand := ⟨depthLimit - 2, homeRealm, "/b.bad", asking⟩
  have hload : c.load = (.error (.error (.malformed "no value")),
      (⟨asking.registry.insert "/b.bad" n, v⟩ : Host).withoutModule "/b.bad") := by
    have hfresh : asking.registry.modules.get? "/b.bad" = none := rfl
    have hdepth : depthLimit - 2 = depthLimit - 3 + 1 := rfl
    have hperformed := perform_of_done (f := answerWithin (depthLimit - 3)) (h := asking) hmade'
    simp only [c, Errand.load, hdepth, loadWithin, hfresh, loadNew, hperformed, populate]
    rfl
  have hleads : asking.resolve "/b.bad" "/" = .ok "/b.bad" := by
    have hfound : Resolution.resolve relayWorld.tree relayHost.registry.extensions "/b.bad" "/" =
        some (Path.ofString "/b.bad") := by decide +kernel
    have hextensions : asking.registry.extensions = relayHost.registry.extensions := rfl
    rw [resolve, hextensions, show asking.workspace.world = relayWorld from hworld, hfound]
  have hasking : Asking ⟨depthLimit, homeRealm, "/a.relay", relayHost⟩ m ⟨relayHost.registry, w⟩
      ⟨"/b.bad", "/", homeRealm⟩ _ c :=
    ⟨rfl, rfl, perform_of_done hmade, .here _ _ _ _, rfl, hleads⟩
  have hpasses : Passes c ⟨"/b.bad", "/", homeRealm⟩ fun answer w =>
      .done (match answer with
        | .ok _ => .ok ()
        | .error v => .error (.thrown v), w) :=
    fun r h text _ hr => ⟨h.workspace, rfl, hr⟩
  have hnested : Nested ⟨depthLimit, homeRealm, "/a.relay", relayHost⟩ ["/a.relay"] c :=
    .inside hasking hpasses (.innermost c)
  exact ⟨c, _, hload, hnested, (surfaces hload ⟨by simp, rfl⟩).1 relayHost "/a.relay" _ _ rfl
    hnested⟩

end Host
end LoadHook
