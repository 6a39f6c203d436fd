import LoadHook.Command
import LoadHook.Proofs.Hook.Containment
import LoadHook.Proofs.Registry.Failure
import Mathlib.Data.List.Induction

/-!
# The entries of the command

The command loads its entries in one host, and comes as far as the first that fails. What it exits
with and what it reports say which that is, and whatever is named after it is never looked at. An
entry that has been loaded stays registered until the end, so naming it again, in whatever spelling,
gives it back without running anything.
-/
namespace LoadHook

open Script (Value RealmRef Ref)

variable {h h₁ h₂ h₃ : Host} {p q : Path} {m : Ref} {j : Journal} {entry : String}
  {entries : List String} {e : LoadError} {w : World} {runner : Runner}

/-! ## Dispatching once -/

/-- A module is removed only because its handler has failed. -/
def Journal.Dropping (j : Journal) : Prop := ∀ x ∈ j, (∀ p, x.what ≠ .evicted p) ∧ x.what ≠ .cleared

theorem Journal.dropping_append {k : Journal} : Dropping (j ++ k) ↔ Dropping j ∧ Dropping k :=
  List.forall_mem_append

theorem Journal.dropping_cons {x : Moment} : Dropping (x :: j) ↔
    ((∀ p, x.what ≠ .evicted p) ∧ x.what ≠ .cleared) ∧ Dropping j := List.forall_mem_cons

theorem Journal.Dropping.dropped {x : Moment} (hj : j.Dropping) (hx : x ∈ j) (hr : x.removes p) :
    ∃ q, x.what = .dropped q ∧ q.same p := by
  obtain ⟨hevicted, hcleared⟩ := hj x hx
  obtain ⟨what, g⟩ := x
  cases what with
  | dropped q => exact ⟨q, rfl, hr⟩
  | evicted q => exact absurd rfl (hevicted q)
  | cleared => exact absurd rfl hcleared
  | _ => cases hr

open Journal in
/-- Nothing that a run comes to by itself removes a module otherwise. -/
theorem Played.dropping {c : Course} (hj : Played c h j h₁) : j.Dropping := by
  induction hj with
  | nil | found => simp [Dropping]
  | append _ _ ihj ihk | unmarked _ _ _ _ ihj ihk => exact dropping_append.mpr ⟨ihj, ihk⟩
  | ran | threw | missed | answered | tooDeep => simp [Dropping]
  | required _ _ ih => exact dropping_cons.mpr ⟨by simp, ih⟩
  | code _ ih => exact ih
  | filling _ _ _ ihj ihk => exact dropping_append.mpr ⟨ihj, dropping_cons.mpr ⟨by simp, ihk⟩⟩
  | unmade _ _ _ ih | failed _ _ ih => exact dropping_append.mpr ⟨ih, by simp [Dropping]⟩
  | completed _ _ _ _ ihj ihk =>
    exact dropping_append.mpr ⟨ihj, dropping_append.mpr ⟨ihk, by simp [Dropping]⟩⟩
  | load _ ih =>
    exact dropping_cons.mpr ⟨by simp, dropping_append.mpr ⟨ih, by simp [Dropping]⟩⟩

/-- Nor does what is done from outside, if it is no removal itself. -/
theorem Operation.dropping {o : Operation} (hevict : ∀ p, o ≠ .evict p) (hclear : o ≠ .clear)
    (h : Host) : (o.journal h).Dropping := by
  have hconducted := o.conducted h
  generalize o.journal h = j, o.run h = h₁ at hconducted
  cases hconducted with
  | registered | hooked | edited | missed => simp [Journal.Dropping]
  | entered _ hload hrest => exact Journal.dropping_append.mpr ⟨hload.dropping, hrest.dropping⟩
  | executed hj => exact hj.dropping
  | evicted => exact absurd rfl (hevict _)
  | cleared => exact absurd rfl hclear

theorem Session.dropping {ops : Session} (hevict : ∀ p, .evict p ∉ ops) (hclear : .clear ∉ ops)
    (h : Host) : (ops.journal h).Dropping := by
  induction ops generalizing h with
  | nil => simp [journal, Journal.Dropping]
  | cons o rest ih =>
    refine Journal.dropping_append.mpr ⟨o.dropping (fun p ho => ?_) (fun ho => ?_) h, ih
      (fun p hp => hevict p (List.mem_cons_of_mem o hp))
      (fun hp => hclear (List.mem_cons_of_mem o hp)) (o.run h)⟩
    · exact hevict p (ho ▸ List.mem_cons_self)
    · exact hclear (ho ▸ List.mem_cons_self)

/-- The handler of a path has been dispatched for good: after the last time the module stays, and
whenever it was dispatched before, the handler has failed and the module was removed. -/
def Once (p : Path) (j : Journal) : Prop :=
  ∃ a x b, j = a ++ x :: b ∧ x.dispatches p ∧
    (∀ y ∈ b, y.dispatches p = false ∧ y.removes p = false) ∧
    ∀ a₁ y a₂, a = a₁ ++ y :: a₂ → y.dispatches p → ∃ z ∈ a₂, ∃ q, z.what = .dropped q ∧ q.same p

/-- What is registered was dispatched, and neither dispatched again nor removed since. -/
theorem exists_last_dispatch (hm : (Journal.replay j).get? p = some m) :
    ∃ a x b, j = a ++ x :: b ∧ x.dispatches p ∧
      ∀ y ∈ b, y.dispatches p = false ∧ y.removes p = false := by
  induction j using List.reverseRecOn with
  | nil =>
    rw [Journal.replay, List.foldl_nil, PathMap.get?_empty] at hm
    cases hm
  | append_singleton j y ih =>
    cases hr : y.removes p with
    | true =>
      rw [get?_replay_of_removes hr] at hm
      cases hm
    | false =>
      cases hd : y.dispatches p with
      | true => exact ⟨j, y, [], rfl, hd, List.forall_mem_nil _⟩
      | false =>
        have hspared : ∀ z ∈ [y], z.dispatches p = false ∧ z.removes p = false :=
          List.forall_mem_singleton.mpr ⟨hd, hr⟩
        rw [get?_replay_of_spared hspared] at hm
        obtain ⟨a, x, b, rfl, hx, hb⟩ := ih hm
        refine ⟨a, x, b ++ [y], by simp, hx, fun z hz => ?_⟩
        exact (List.mem_append.mp hz).elim (hb z) (hspared z)

/-- In a tracked journal, what is registered in the end was dispatched once for good. -/
theorem once_of_registered (hj : Journal.Every Tracked [] j) (hdrop : j.Dropping)
    (hm : (Journal.replay j).get? p = some m) : Once p j := by
  obtain ⟨a, x, b, rfl, hx, hb⟩ := exists_last_dispatch hm
  refine ⟨a, x, b, rfl, hx, hb, ?_⟩
  rintro a₁ y a₂ rfl hy
  obtain ⟨q, n, hq, hqp⟩ := Moment.dispatches_iff.mp hy
  obtain ⟨r, n', hr, hrp⟩ := Moment.dispatches_iff.mp hx
  -- otherwise the module would have been registered still when it was dispatched the last time
  by_contra hnot
  have hkept : ∀ z ∈ a₂, z.removes q = false := by
    intro z hz
    refine Bool.eq_false_iff.mpr fun hremoves => hnot ?_
    obtain ⟨s, hs, hsq⟩ := hdrop.dropped (by simp [hz]) hremoves
    exact ⟨z, hz, s, hs, Path.same_trans hsq hqp⟩
  have hkept' : ∀ z ∈ a₂ ++ [x], z.removes q = false := by
    simpa [or_imp, forall_and, Moment.removes, hr] using hkept
  have hsplit : (a₁ ++ y :: a₂) ++ x :: b = a₁ ++ y :: ((a₂ ++ [x]) ++ b) := by simp
  have hagain : x.dispatches q = false := (once_of_tracked hj hsplit hq hkept' x (by simp)).2
  exact Bool.eq_false_iff.mp hagain
    (Moment.dispatches_iff.mpr ⟨r, n', hr, Path.same_trans hrp (Path.same_symm hqp)⟩)

/-! ## Loading one entry -/

namespace Host

/-- The entry of a path that is registered is not run again. -/
theorem runMain_of_registered {entry : Path}
    (hp : absolute h.workspace.world.tree entry = .ok p)
    (hm : h.registry.modules.get? p = some m) : h.runMain entry = (.ok (), h) := by
  have hload : load homeRealm p h = (.ok m, h) := loadWithin_of_registered hm depthLimit
  simp only [runMain, hp, enter, conclude, hload]
  rfl

/-- An entry that has been loaded is registered. -/
theorem registered_of_runMain {entry : Path} (hrun : h.runMain entry = (.ok (), h₁))
    (hp : absolute h.workspace.world.tree entry = .ok p) :
    (h₁.registry.modules.get? p).isSome := by
  have hrecorded : (Recorded.runMain entry h).outcome = (.ok (), h₁) :=
    (Recorded.outcome_runMain entry h).trans hrun
  have hplayed := Recorded.played_load homeRealm p h
  simp only [Recorded.runMain, hp, Recorded.enter, Record.outcome, Recorded.conclude] at hrecorded
  generalize Recorded.load homeRealm p h = loaded at hplayed hrecorded
  obtain ⟨result, h₂, j⟩ := loaded
  cases result with
  | error e => cases hrecorded
  | ok m =>
    cases hrecorded
    dsimp only at hplayed
    generalize hr : (Except.ok m : Except Failure Ref) = result at hplayed
    cases hplayed with
    | load hbody =>
      cases hbody with
      | found hm => exact Option.isSome_iff_exists.mpr ⟨_, hm⟩
      | completed _ hfilled _ hmarked => exact hmarked.kept hfilled.filled
      | tooDeep | unmade | failed | unmarked => cases hr

/-- What is registered stays so while entries are loaded. -/
theorem kept_of_runMain (entry : Path) (hq : (h.registry.modules.get? q).isSome) :
    ((h.runMain entry).2.registry.modules.get? q).isSome := by
  have hconducted := Operation.conducted (.runMain entry) h
  rw [Operation.run] at hconducted
  generalize (h.runMain entry).2 = h₁ at hconducted
  generalize hj : (Operation.runMain entry).journal h = j at hconducted
  cases hconducted with
  | missed => exact hq
  | entered _ hload hrest => exact hrest.kept (hload.kept hq)

/-- An entry is loaded if its source cannot be compiled, where the names of a module mean nothing
special. -/
theorem runMain_of_aborts {entry : Path} {number : Nat} {k : Hook} {e : CompileError}
    (hp : absolute h.workspace.world.tree entry = .ok p)
    (hnone : h.registry.modules.get? p = none) (ha : Hook.Aborts number p k e h)
    (hplain : h.workspace.heap.PlainFor homeRealm) :
    ∃ m h₁, h.runMain entry = (.ok (), h₁) ∧ Hook.Contained number homeRealm p k e h m h₁ := by
  obtain ⟨m, h₁, h₂, h₃, hload, hcontained⟩ :=
    Hook.loadNew_of_aborts (Recorded.answerWithin (depthLimit - 1)) ha hplain
  refine ⟨m, h₃, ?_, hcontained⟩
  have hnew := Recorded.load_of_not_registered homeRealm hnone
  rw [hload] at hnew
  rw [← Recorded.outcome_runMain, Recorded.runMain, hp]
  simp only [Recorded.enter, Recorded.conclude, hnew]
  rfl

end Host

/-! ## Loading entries in order -/

namespace Command

/-- Entries are loaded one after another, each in the host that the one before it has left. -/
inductive Loaded : Host → List String → Host → Prop
  | nil (h : Host) : Loaded h [] h
  | cons {h h₁ h₂ : Host} {entry : String} {rest : List String} :
      h.runMain (Path.ofString entry) = (.ok (), h₁) → Loaded h₁ rest h₂ →
      Loaded h (entry :: rest) h₂

/-- What is done with a host when entries are loaded. -/
def loading (entries : List String) : Session :=
  entries.map fun entry => .runMain (Path.ofString entry)

theorem runEntries_eq_none_iff : runEntries h entries = (none, h₁) ↔ Loaded h entries h₁ := by
  induction entries generalizing h with
  | nil =>
    constructor
    · rintro ⟨⟩
      exact .nil _
    · rintro ⟨⟩
      rfl
  | cons entry rest ih =>
    rw [runEntries]
    generalize hrun : h.runMain (Path.ofString entry) = ran
    obtain ⟨_ | ⟨⟩, h₂⟩ := ran
    · constructor
      · rintro ⟨⟩
      · rintro (_ | ⟨hok, -⟩)
        cases hrun.symm.trans hok
    · rw [ih]
      constructor
      · exact .cons hrun
      · rintro (_ | ⟨hok, hrest⟩)
        cases hrun.symm.trans hok
        exact hrest

/-- Where the loading of entries ends: at the first that fails. -/
theorem runEntries_eq_some_iff : runEntries h entries = (some (entry, e), h₁) ↔
    ∃ before after h₂, entries = before ++ entry :: after ∧ Loaded h before h₂ ∧
      h₂.runMain (Path.ofString entry) = (.error e, h₁) := by
  induction entries generalizing h with
  | nil => simp [runEntries]
  | cons first rest ih =>
    rw [runEntries]
    generalize hrun : h.runMain (Path.ofString first) = ran
    obtain ⟨error | ⟨⟩, h₂⟩ := ran
    · constructor
      · rintro ⟨⟩
        exact ⟨[], rest, h, rfl, .nil _, hrun⟩
      · rintro ⟨before, after, h₃, he, hloaded, hfailed⟩
        cases hloaded with
        | nil =>
          cases he
          cases hrun.symm.trans hfailed
          rfl
        | cons hok _ =>
          cases he
          cases hrun.symm.trans hok
    · rw [ih]
      constructor
      · rintro ⟨before, after, h₃, rfl, hloaded, hfailed⟩
        exact ⟨first :: before, after, h₃, rfl, .cons hrun hloaded, hfailed⟩
      · rintro ⟨before, after, h₃, he, hloaded, hfailed⟩
        cases hloaded with
        | nil =>
          cases he
          cases hrun.symm.trans hfailed
        | cons hok hrest =>
          cases he
          cases hrun.symm.trans hok
          exact ⟨_, after, h₃, rfl, hrest, hfailed⟩

namespace Loaded

theorem run (hl : Loaded h entries h₁) : (loading entries).run h = h₁ := by
  induction hl with
  | nil => rfl
  | cons hrun _ ih =>
    rw [← ih, loading, List.map_cons, Session.run, Operation.run, hrun]
    rfl

/-- What is registered stays so while entries are loaded. -/
theorem kept (hl : Loaded h entries h₁) (hq : (h.registry.modules.get? q).isSome) :
    (h₁.registry.modules.get? q).isSome := by
  induction hl with
  | nil => exact hq
  | @cons h _ _ entry _ hrun _ ih =>
    have hkept := Host.kept_of_runMain (Path.ofString entry) hq
    rw [hrun] at hkept
    exact ih hkept

/-- An entry that has been loaded is given back when it is named again, in whatever spelling. -/
theorem again {other : String} (hl : Loaded h₁ entries h₂)
    (hrun : h.runMain (Path.ofString entry) = (.ok (), h₁))
    (hp : Host.absolute h.workspace.world.tree (Path.ofString entry) = .ok p)
    (hq : Host.absolute h₂.workspace.world.tree (Path.ofString other) = .ok q) (hs : p.same q) :
    h₂.runMain (Path.ofString other) = (.ok (), h₂) := by
  obtain ⟨m, hm⟩ := Option.isSome_iff_exists.mp (hl.kept (Host.registered_of_runMain hrun hp))
  exact Host.runMain_of_registered hq ((PathMap.get?_congr hs).symm.trans hm)

end Loaded

/-- What is registered stays so while entries are loaded, whether they can be or not. -/
theorem kept_loading (entries : List String) (hq : (h.registry.modules.get? q).isSome) :
    (((loading entries).run h).registry.modules.get? q).isSome := by
  induction entries generalizing h with
  | nil => exact hq
  | cons entry rest ih => exact ih (Host.kept_of_runMain (Path.ofString entry) hq)

/-! ## The command -/

/-- What is done with a new host before any entry is loaded: it gets a hook, which serves the
extensions of the settings. -/
def opening (runner : Runner) (settings : Settings) : Session :=
  .addHook (.new settings (Tsc.toolchain runner settings.compiler)) ::
    settings.extensions.map fun e => .register e (Hook.handler 0)

/-- What is done with a new host by a run that comes as far as some entries. -/
def session (runner : Runner) (w : World) (entries : List String) : Session :=
  opening runner (Settings.ofEnvironment w) ++ loading entries

/-- The world in which the host of a run starts. -/
def begun (w : World) : World := w.report .info .command banner

/-- The host in which the entries of a run are loaded. -/
def ready (runner : Runner) (w : World) : Host :=
  prepare runner (Settings.ofEnvironment w) (begun w)

theorem run_registers (extensions : List String) (f : Handler) (h : Host) :
    Session.run (extensions.map fun e => .register e f) h =
      extensions.foldl (fun h e => h.register e f) h := by
  induction extensions generalizing h with
  | nil => rfl
  | cons e rest ih => exact ih (h.register e f)

theorem run_opening (runner : Runner) (w : World) :
    (opening runner (Settings.ofEnvironment w)).run (.start (begun w)) = ready runner w :=
  run_registers _ _ _

theorem run_session (runner : Runner) (w : World) (entries : List String) :
    (session runner w entries).run (.start (begun w)) = (loading entries).run (ready runner w) := by
  rw [session, Session.run_append, run_opening]

/-- A run of the command removes no module. -/
theorem dropping_session (runner : Runner) (w : World) (entries : List String) (h : Host) :
    ((session runner w entries).journal h).Dropping := by
  refine Session.dropping (fun p hp => ?_) (fun hp => ?_) h <;>
  · rw [session, opening, loading] at hp
    simp at hp

/-- What has been loaded when a run comes to an entry is left as it is by what comes after. -/
theorem run_session_append {before : List String} (hl : Loaded (ready runner w) before h)
    (more : List String) :
    (session runner w (before ++ more)).run (.start (begun w)) = (loading more).run h := by
  rw [run_session, loading, List.map_append, Session.run_append]
  exact congrArg _ hl.run

/-- An entry that is loaded is dispatched once for good, however many entries come after it, and
whichever of them name it again. -/
theorem once_session {before more : List String} (hl : Loaded (ready runner w) before h)
    (hrun : h.runMain (Path.ofString entry) = (.ok (), h₁))
    (hp : Host.absolute h.workspace.world.tree (Path.ofString entry) = .ok p)
    (hu : Undisturbed ((session runner w (before ++ entry :: more)).journal (.start (begun w)))) :
    Once p ((session runner w (before ++ entry :: more)).journal (.start (begun w))) := by
  have hlast : (session runner w (before ++ entry :: more)).run (.start (begun w)) =
      (loading more).run h₁ := by
    rw [run_session_append hl, loading, List.map_cons, Session.run, Operation.run, hrun]
    rfl
  have hkept := kept_loading more (Host.registered_of_runMain hrun hp)
  have hreplay := (Session.memo _ _ hu [] trivial rfl).2
  rw [List.nil_append, hlast] at hreplay
  obtain ⟨m, hm⟩ := Option.isSome_iff_exists.mp hkept
  rw [hreplay] at hm
  exact once_of_registered (Session.tracked _ _ hu) (dropping_session runner w _ _) hm

theorem reportText_begins (message : String) (causes : List String) :
    ∃ rest, reportText message causes = "Error: " ++ message ++ rest :=
  ⟨_, String.append_assoc⟩

/-- How the command ends when an entry fails. -/
def failing (entry : String) (e : LoadError) (w : World) : Outcome :=
  ⟨1, reportText (entry ++ " failed") (causes e),
    match stack? e with
    | some stack => w.report .error .command stack
    | none => w⟩

theorem run_of_loaded (hne : entries ≠ []) (hl : Loaded (ready runner w) entries h) :
    (run runner entries w).code = 0 := by
  have hentries : runEntries (prepare runner (.ofEnvironment w) (begun w)) entries = (none, h) :=
    runEntries_eq_none_iff.mpr hl
  rw [begun] at hentries
  simp only [run, List.isEmpty_iff, hne, if_false, hentries]

/-- What comes after the first entry that fails makes no difference. -/
theorem run_of_failed {before : List String} (hl : Loaded (ready runner w) before h)
    (hrun : h.runMain (Path.ofString entry) = (.error e, h₁)) (after : List String) :
    run runner (before ++ entry :: after) w = failing entry e h₁.workspace.world := by
  have hentries : runEntries (prepare runner (.ofEnvironment w) (begun w))
      (before ++ entry :: after) = (some (entry, e), h₁) :=
    runEntries_eq_some_iff.mpr ⟨before, after, h, rfl, hl, hrun⟩
  have hne : (before ++ entry :: after).isEmpty = false := by simp
  rw [begun] at hentries
  simp only [run, hne, hentries, failing]
  rfl

/-- Entries can all be loaded, or there is a first that fails. -/
theorem loaded_or_failed (h : Host) (entries : List String) :
    (∃ h₁, Loaded h entries h₁) ∨ ∃ before entry after e h₁ h₂, entries = before ++ entry :: after ∧
      Loaded h before h₁ ∧ h₁.runMain (Path.ofString entry) = (.error e, h₂) := by
  generalize hran : runEntries h entries = ran
  obtain ⟨_ | ⟨entry, e⟩, h₂⟩ := ran
  · exact .inl ⟨h₂, runEntries_eq_none_iff.mp hran⟩
  · obtain ⟨before, after, h₁, he, hl, hrun⟩ := runEntries_eq_some_iff.mp hran
    exact .inr ⟨before, entry, after, e, h₁, h₂, he, hl, hrun⟩

/-- The code of a run and its report tell how far it has come. -/
structure RunLaw (runner : Runner) (arguments : List String) (w : World) : Prop where
  /-- It succeeds just if something is named and each entry is loaded, in the host that the entries
  before it have left. -/
  succeeds : (run runner arguments w).code = 0 ↔
    arguments ≠ [] ∧ ∃ h, Loaded (ready runner w) arguments h
  idle : run runner [] w = ⟨1, reportText usage [], begun w⟩
  /-- Otherwise the entries before the first that fails have been loaded, and what has happened to
  the world is what they and this one have done to it. The report names it, and would be the same
  whatever came after it. -/
  fails : arguments ≠ [] → (run runner arguments w).code ≠ 0 → ∃ before entry after e h h₁,
    arguments = before ++ entry :: after ∧ Loaded (ready runner w) before h ∧
    h.runMain (Path.ofString entry) = (.error e, h₁) ∧
    (session runner w (before ++ [entry])).run (.start (begun w)) = h₁ ∧
    (∀ others, run runner (before ++ entry :: others) w = failing entry e h₁.workspace.world) ∧
    ∃ rest, (run runner arguments w).report = "Error: " ++ (entry ++ " failed") ++ rest
  /-- An entry is loaded if its source cannot be compiled, where the names of a module mean nothing
  special. -/
  aborted : ∀ (h : Host) (entry : Path) p number k e,
    Host.absolute h.workspace.world.tree entry = .ok p → h.registry.modules.get? p = none →
    Hook.Aborts number p k e h → h.workspace.heap.PlainFor Host.homeRealm →
    ∃ m h₁, h.runMain entry = (.ok (), h₁) ∧
      Hook.Contained number Host.homeRealm p k e h m h₁
  /-- To name again an entry that is loaded does nothing at all. -/
  again : ∀ before entry between h h₁ h₂ other p q, Loaded (ready runner w) before h →
    h.runMain (Path.ofString entry) = (.ok (), h₁) → Loaded h₁ between h₂ →
    Host.absolute h.workspace.world.tree (Path.ofString entry) = .ok p →
    Host.absolute h₂.workspace.world.tree (Path.ofString other) = .ok q → p.same q →
    h₂.runMain (Path.ofString other) = (.ok (), h₂)
  /-- Its handler is dispatched once for good, however far the run comes, if nothing is asked for
  while the object of a module is being made. -/
  once : ∀ before entry more h h₁ p, before ++ entry :: more <+: arguments →
    Loaded (ready runner w) before h → h.runMain (Path.ofString entry) = (.ok (), h₁) →
    Host.absolute h.workspace.world.tree (Path.ofString entry) = .ok p →
    Undisturbed ((session runner w (before ++ entry :: more)).journal (.start (begun w))) →
    Once p ((session runner w (before ++ entry :: more)).journal (.start (begun w)))

/-- The command ends as its entries do, one after another up to the first that fails. -/
theorem run_law (runner : Runner) (arguments : List String) (w : World) :
    RunLaw runner arguments w where
  succeeds := by
    constructor
    · intro hcode
      have hne : arguments ≠ [] := by
        rintro rfl
        cases hcode
      refine ⟨hne, ?_⟩
      obtain hl | ⟨before, entry, after, e, h, h₁, rfl, hl, hrun⟩ :=
        loaded_or_failed (ready runner w) arguments
      · exact hl
      · rw [run_of_failed hl hrun] at hcode
        cases hcode
    · rintro ⟨hne, h, hl⟩
      exact run_of_loaded hne hl
  idle := rfl
  fails := by
    intro hne hcode
    obtain ⟨h, hl⟩ | ⟨before, entry, after, e, h, h₁, rfl, hl, hrun⟩ :=
      loaded_or_failed (ready runner w) arguments
    · exact absurd (run_of_loaded hne hl) hcode
    · refine ⟨before, entry, after, e, h, h₁, rfl, hl, hrun, ?_, run_of_failed hl hrun, ?_⟩
      · rw [run_session_append hl, loading, List.map_singleton, Session.run, Operation.run, hrun]
        rfl
      · rw [run_of_failed hl hrun]
        exact reportText_begins _ _
  aborted h entry p number k e hp hnone ha hplain := Host.runMain_of_aborts hp hnone ha hplain
  again before entry between h h₁ h₂ other p q _ hrun hl hp hq hs := hl.again hrun hp hq hs
  once before entry more h h₁ p _ hl hrun hp hu := once_session hl hrun hp hu

end Command
end LoadHook
