import LoadHook.Proofs.Journal.Session
import LoadHook.Proofs.Module.Spelling
import LoadHook.Proofs.Registry.Filling
import LoadHook.Proofs.Registry.Visits
import LoadHook.Proofs.Script.Showing

/-!
# What a history of loads leaves behind

Modules that change nothing but their own exports, and none of which comes to ask for itself, show
what they show in a fresh host, whatever has been loaded, removed or has failed before. Between two
entries no load is in progress, so every registered module stands for what its first load comes to;
entering a module keeps that, and so does removing modules. Only a load that is refused for being
nested too deep may come to something else, for how deep it is nested depends on what is loaded
already.

The extensions that are registered have to hold no separator. A file that is found by one that does
may be spelled in several ways: it is registered once, but what it says of its directory is spelled
as it was when it was loaded.
-/
namespace LoadHook

open Script (Value Ref Heap View Document ground standardMachine)
open Script.BuiltIn (documentOf)
open Host (homeRealm)

/-! ## Modules that ask for one another -/

namespace Host

/-- The modules that come to be loaded when some paths are entered. -/
inductive Comes (h : Host) (entries : Path → Prop) : Path → Prop
  | entered {p q : Path} : entries p → absolute h.workspace.world.tree p = .ok q → Comes h entries q
  | asked {p q : Path} {specifier : String} : Comes h entries p → h.Asks p specifier →
      h.resolve specifier (p.parent.getD "") = .ok q → Comes h entries q

/-- All modules that come to be loaded change nothing but their exports and ask for paths, and each
asks for modules of a lower rank only, so that none comes to ask for itself. -/
structure Layered (h : Host) (entries : Path → Prop) (rank : Path → Nat) : Prop where
  served : ∀ p, h.Comes entries p → h.Served p
  paths : ∀ p specifier, h.Comes entries p → h.Asks p specifier →
    Resolution.isPathLike specifier.toList
  lower : ∀ p specifier q, h.Comes entries p → h.Asks p specifier →
    h.resolve specifier (p.parent.getD "") = .ok q → rank q < rank p

variable {h : Host} {entries : Path → Prop} {rank : Path → Nat} {p : Path}

/-- Modules that ask for one another only, each for modules of a lower rank. -/
theorem Layered.of_closed {members : List Path}
    (hentries : ∀ p, entries p → ∀ q ∈ (absolute h.workspace.world.tree p).toOption, q ∈ members)
    (hserved : ∀ p ∈ members, h.Served p)
    (hasked : ∀ p ∈ members, ∀ step ∈ h.program p, ∀ specifier ∈ step.asked,
      Resolution.isPathLike specifier.toList ∧
        ∀ q ∈ (h.resolve specifier (p.parent.getD "")).toOption, q ∈ members ∧ rank q < rank p) :
    h.Layered entries rank := by
  have hled {p q : Path} {specifier : String} (hp : p ∈ members) (hasks : h.Asks p specifier)
      (hq : h.resolve specifier (p.parent.getD "") = .ok q) : q ∈ members ∧ rank q < rank p := by
    obtain ⟨-, step, hstep, hspecifier⟩ := hasks
    refine (hasked p hp step hstep specifier hspecifier).2 q ?_
    rw [hq]
    rfl
  have hmem : ∀ p, h.Comes entries p → p ∈ members := fun p hp => by
    induction hp with
    | entered hp hq =>
      refine hentries _ hp _ ?_
      rw [hq]
      rfl
    | asked _ hasks hq ih => exact (hled ih hasks hq).1
  refine ⟨fun p hp => hserved p (hmem p hp), fun p specifier hp ⟨_, step, hstep, hspecifier⟩ => ?_,
    fun p specifier q hp hasks hq => (hled (hmem p hp) hasks hq).2⟩
  exact (hasked p (hmem p hp) step hstep specifier hspecifier).1

/-- The root is no file, so there are no steps in it. -/
theorem not_asks_root {specifier : String} : ¬ h.Asks ⟨['/']⟩ specifier := by
  rintro ⟨-, step, hstep, -⟩
  rw [program, FileTree.readText_root] at hstep
  cases hstep

/-- A module comes to be loaded under a tidy path. -/
theorem Comes.tidy (hL : h.Layered entries rank)
    (he : Resolution.Unbroken h.registry.extensions) (hp : h.Comes entries p) : p.Tidy := by
  induction hp with
  | entered _ habs => exact tidy_absolute habs
  | @asked p q specifier hp hasks hq ih =>
    have hroot : p ≠ ⟨['/']⟩ := by
      rintro rfl
      exact not_asks_root hasks
    unfold resolve at hq
    split at hq
    · next hfound =>
      cases hq
      exact Resolution.tidy_resolve he (ih.parent hroot) (hL.paths p specifier hp hasks) hfound
    · cases hq

/-- The modules that come to be loaded when some paths are entered, as a project. -/
def project (h : Host) (entries : Path → Prop) (rank : Path → Nat) : Project :=
  ⟨h, h.Comes entries, rank⟩

theorem Layered.acyclic (hL : h.Layered entries rank)
    (he : Resolution.Unbroken h.registry.extensions) (hempty : h.registry.modules = .empty)
    (hstart : h.workspace.heap = ground) : (h.project entries rank).Acyclic where
  empty := hempty
  start := hstart
  spelled _ _ hp hq hsame := (Comes.tidy hL he hp).eq_of_same (Comes.tidy hL he hq) hsame
  served := hL.served
  leads p specifier q hp hasks hq := ⟨.asked hp hasks hq, hL.lower p specifier q hp hasks hq⟩

end Host

/-! ## Hosts between two entries -/

namespace Project

variable {P : Project} {t : Site} {p entry : Path} {m n : Ref} {h g : Host}

/-- Between two entries no load is in progress, and all registered modules stand for what they
are. -/
def Rests (P : Project) (h : Host) : Prop := P.Sound ⟨h, [], [], []⟩

theorem Stands.rests (hm : P.Stands t.view p m) : P.Stands ⟨t.heap, []⟩ p m :=
  hm.keeps (View.keeps_of_subset (List.nil_subset _)) List.not_mem_nil rfl

theorem Sound.rests (ht : P.Sound t) (hbusy : t.busy = []) : P.Rests t.host where
  grounded := ht.grounded
  bounded r hr := by cases hr
  world := ht.world
  handlers := ht.handlers
  stands p m hp _ hm := (ht.stands p m hp (by simp [hbusy]) hm).rests

/-! ## Removing modules -/

/-- Where modules are removed, the others are as they were. -/
theorem Rests.forget {r : Registry} (hh : P.Rests h) (hhandlers : r.handlers = h.registry.handlers)
    (hget : ∀ p m, r.modules.get? p = some m → h.registry.modules.get? p = some m) :
    P.Rests { h with registry := r } where
  grounded := hh.grounded
  bounded := hh.bounded
  world := hh.world
  handlers := hhandlers.trans hh.handlers
  stands p m hp hbusy hm := hh.stands p m hp hbusy (hget p m hm)

theorem Rests.evict (hh : P.Rests h) (entry : Path) : P.Rests (h.evict entry).2 := by
  unfold Host.evict
  split
  · exact hh
  · exact hh.forget rfl fun q m hm => (PathMap.get?_erase_eq_some hm).2

theorem Rests.clear (hh : P.Rests h) : P.Rests h.clear :=
  hh.forget rfl fun _ _ hm => by cases hm

/-! ## Entering modules -/

/-- A failure is told outside as what it leaves. -/
theorem conclude_of_leaves {α : Type} {e : Failure} {err : LoadError}
    (he : e.Leaves h.workspace.heap err) :
    Host.conclude ((.error e, h) : Except Failure α × Host) = (.error err, h) := by
  have hseen : h.perform Host.answer (Load.caught homeRealm e) = (.ok err, h) :=
    Host.perform_of_done (Load.caught_of_leaves homeRealm he)
  simp only [Host.conclude, hseen]

/-- The exports of a module are shown as they are written as a document. -/
theorem perform_exportsText {v : Value} {r : Except Script.Abrupt (Option Document)}
    (hv : h.workspace.heap.own m exportsKey = some (.plain v))
    (hr : documentOf standardMachine homeRealm v h.workspace.heap = .done (r, h.workspace.heap)) :
    h.perform Host.answer (Host.exportsText m) =
      ((r.mapError Load.failureOf).map (·.map fun d => Text.Utf16.toString (d.print [] [])),
        h) := by
  have hread : h.perform Host.answer (Load.exports homeRealm m) = (.ok v, h) :=
    Host.perform_of_done (exports_of_holds ⟨true, true, true, hv⟩)
  have hscript : h.perform Host.answer (Load.script (documentOf standardMachine homeRealm v)) =
      (r.mapError Load.failureOf, h) := perform_script (s := ⟨h, [], [], []⟩) hr []
  rw [Host.exportsText, Host.perform_bind, hread]
  dsimp only
  rw [Host.perform_bind, hscript]
  cases r <;> rfl

/-- The exports of module objects that stand for the same module show the same. -/
theorem Stands.shown (hm : P.Stands ⟨h.workspace.heap, []⟩ p m)
    (hn : P.Stands ⟨g.workspace.heap, []⟩ p n) (hh : P.Rests h) (hg : P.Rests g) :
    ∃ r, Host.conclude (h.perform Host.answer (Host.exportsText m)) = (r, h) ∧
      Host.conclude (g.perform Host.answer (Host.exportsText n)) = (r, g) := by
  obtain ⟨-, v, m₀, i, u, hv, hfirst, hu, j, hlike⟩ := hm
  obtain ⟨-, v', m₁, i', u', hv', hfirst', hu', j', hlike'⟩ := hn
  -- both are alike to what the first load of the module exports
  cases hfirst.symm.trans hfirst'
  cases hu.symm.trans hu'
  have hagree := Script.documentOf_like standardMachine homeRealm hh.grounded hg.grounded
    (hlike.of_common hlike')
  cases hagree with
  | value d hd hd' =>
    rw [perform_exportsText hv hd, perform_exportsText hv' hd']
    exact ⟨_, rfl, rfl⟩
  | overflow hd hd' =>
    rw [perform_exportsText hv hd, perform_exportsText hv' hd']
    exact ⟨_, conclude_of_leaves rfl, conclude_of_leaves rfl⟩

/-- A path at which a project may be entered. -/
def Opens (P : Project) (entry : Path) : Prop :=
  ∀ q, Host.absolute P.host.workspace.world.tree entry = .ok q → P.member q

section Acyclic

variable (hP : P.Acyclic)
include hP

/-- A module that is entered without a refusal stands for what it is, or its load ends in the error
in which its first load ends. -/
theorem Acyclic.entered (hp : P.member p) (hh : P.Rests h)
    (hu : (Recorded.load homeRealm p h).journal.Unrefused) :
    ∃ g, P.Rests g ∧
      ((∃ m, h.enter p = (.ok m, g) ∧ P.Stands ⟨g.workspace.heap, []⟩ p m) ∨
        ∃ e i err, h.enter p = (.error err, g) ∧ P.first p = (.error e, i) ∧
          e.Leaves i.workspace.heap err) := by
  obtain ⟨t, ht, -, hhost, hloaded⟩ :=
    hP.accords_load (s := ⟨h, [], [], []⟩) hp hh (by simp) hu
  refine ⟨t.host, ht.sound.rests ht.busy, ?_⟩
  unfold Host.enter
  generalize Host.load homeRealm p h = r at hhost hloaded
  obtain ⟨r, g⟩ := r
  cases hhost
  cases hloaded with
  | value hm => exact .inl ⟨_, rfl, hm.rests⟩
  | failed err hfirst he₀ he => exact .inr ⟨_, _, err, conclude_of_leaves he, hfirst, he₀⟩

/-- Running a module as an entry without a refusal leaves a host that rests. -/
theorem Acyclic.rests_runMain (hentry : P.Opens entry) (hh : P.Rests h)
    (hu : (Recorded.runMain entry h).journal.Unrefused) : P.Rests (h.runMain entry).2 := by
  have hworld : h.workspace.world = P.host.workspace.world := hh.world
  rw [Host.runMain, hworld]
  cases hq : Host.absolute P.host.workspace.world.tree entry with
  | error cause => exact hh
  | ok q =>
    have hload := hu.mono (Recorded.load_prefix_runMain (hworld ▸ hq)).subset
    obtain ⟨g, hg, ⟨m, hm, -⟩ | ⟨e, i, err, herr, -⟩⟩ := hP.entered (hentry q hq) hh hload
    · simp only [hm]
      exact hg
    · simp only [herr]
      exact hg

/-- So does reading the exports of a module. -/
theorem Acyclic.rests_loadExports (hentry : P.Opens entry) (hh : P.Rests h)
    (hu : (Recorded.loadExports entry h).journal.Unrefused) :
    P.Rests (h.loadExports entry).2 := by
  have hworld : h.workspace.world = P.host.workspace.world := hh.world
  rw [Host.loadExports, hworld]
  cases hq : Host.absolute P.host.workspace.world.tree entry with
  | error cause => exact hh
  | ok q =>
    have hload := hu.mono (Recorded.load_prefix_loadExports (hworld ▸ hq)).subset
    obtain ⟨g, hg, ⟨m, hm, hstands⟩ | ⟨e, i, err, herr, -⟩⟩ := hP.entered (hentry q hq) hh hload
    · obtain ⟨r, hr, -⟩ := hstands.shown hstands hg hg
      simp only [hm, hr]
      exact hg
    · simp only [herr]
      exact hg

/-- Read without a refusal, the exports of a module are in every host that rests what they are in
the fresh host, and so is the error if the module cannot be loaded. -/
theorem Acyclic.loadExports_eq (hentry : P.Opens entry) (hh : P.Rests h)
    (hu : (Recorded.loadExports entry h).journal.Unrefused)
    (hu₀ : (Recorded.loadExports entry P.host).journal.Unrefused) :
    (h.loadExports entry).1 = (P.host.loadExports entry).1 := by
  have hworld : h.workspace.world = P.host.workspace.world := hh.world
  rw [Host.loadExports, Host.loadExports, hworld]
  cases hq : Host.absolute P.host.workspace.world.tree entry with
  | error cause => rfl
  | ok q =>
    have hload := hu.mono (Recorded.load_prefix_loadExports (hworld ▸ hq)).subset
    have hload₀ := hu₀.mono (Recorded.load_prefix_loadExports hq).subset
    obtain ⟨g, hg, hentered⟩ := hP.entered (hentry q hq) hh hload
    obtain ⟨g₀, hg₀, hfresh⟩ := hP.entered (hentry q hq) hP.sound_origin hload₀
    rcases hentered with ⟨m, hm, hstands⟩ | ⟨e, i, err, herr, hfirst, he⟩ <;>
      rcases hfresh with ⟨n, hn, hstands₀⟩ | ⟨e₀, i₀, err₀, herr₀, hfirst₀, he₀⟩
    · obtain ⟨r, hr, hr₀⟩ := hstands.shown hstands₀ hg hg₀
      simp only [hm, hn, hr, hr₀]
    · obtain ⟨-, v, m₀, i, u, hv, hfirst, -⟩ := hstands
      cases hfirst.symm.trans hfirst₀
    · obtain ⟨-, v, m₀, i, u, hv, hfirst₀, -⟩ := hstands₀
      cases hfirst.symm.trans hfirst₀
    · cases hfirst.symm.trans hfirst₀
      cases Load.leaves_unique he he₀
      simp only [herr, herr₀]

end Acyclic

end Project

/-! ## Histories -/

namespace Operation

variable {entries : Path → Prop} {h g : Host} {rank : Path → Nat} {o : Operation}

/-- After a visit without a refusal the host rests again. -/
theorem Visits.rests (ho : o.Visits entries) (hP : (h.project entries rank).Acyclic)
    (hg : (h.project entries rank).Rests g) (hu : (o.journal g).Unrefused) :
    (h.project entries rank).Rests (o.run g) := by
  cases o with
  | runMain p => exact hP.rests_runMain (fun _ => .entered ho) hg hu
  | loadExports p => exact hP.rests_loadExports (fun _ => .entered ho) hg hu
  | evict p => exact hg.evict p
  | clear => exact hg.clear
  | _ => exact ho.elim

end Operation

namespace Session

variable {entries : Path → Prop} {h g : Host} {rank : Path → Nat} {p : Path}

theorem rests (history : Session) (hvisits : ∀ o ∈ history, o.Visits entries)
    (hP : (h.project entries rank).Acyclic) (hg : (h.project entries rank).Rests g)
    (hu : (history.journal g).Unrefused) : (h.project entries rank).Rests (history.run g) := by
  induction history generalizing g with
  | nil => exact hg
  | cons o rest ih =>
    obtain ⟨ho, hrest⟩ := Journal.unrefused_append.mp hu
    exact ih (fun o ho => hvisits o (List.mem_cons_of_mem _ ho))
      ((hvisits o List.mem_cons_self).rests hP hg ho) hrest

/-- Modules are cached transparently. In a host with any files and any handlers for extensions
without separators, whose modules change nothing but their own exports, ask for paths and never come
to ask for themselves, the exports of a module are the same after every history of entries and
removals as before it, and so is the error if it cannot be loaded, as long as no load is refused
before or after the history for being nested too deep. -/
theorem transparent (w : World) (setup history : Session) (entries : Path → Prop)
    (rank : Path → Nat) (hsetup : ∀ o ∈ setup, o.Prepares)
    (he : Resolution.Unbroken (setup.run (.start w)).registry.extensions)
    (hlayered : (setup.run (.start w)).Layered entries rank)
    (hvisits : ∀ o ∈ history, o.Visits entries) (hp : entries p)
    (hfresh : (journal [.loadExports p] (setup.run (.start w))).Unrefused)
    (hlater : (journal (history ++ [.loadExports p]) (setup.run (.start w))).Unrefused) :
    ((history.run (setup.run (.start w))).loadExports p).1 =
      ((setup.run (.start w)).loadExports p).1 := by
  obtain ⟨hmodules, hheap, -, -⟩ := setup.prepared hsetup (.start w)
  have hP := hlayered.acyclic he (hmodules.trans rfl) (hheap.trans (Script.heap_start w))
  rw [journal_append] at hlater
  obtain ⟨hhistory, hlast⟩ := Journal.unrefused_append.mp hlater
  exact hP.loadExports_eq (fun _ => .entered hp) (history.rests hvisits hP hP.sound_origin hhistory)
    (Journal.unrefused_append.mp hlast).1 (Journal.unrefused_append.mp hfresh).1

/-- A module that asks for one that throws and for one that does not. -/
def trio : World :=
  filed [] [(["a.prog".toList], "[[\"try\",\"./b\",\"e\"],[\"require\",\"./c\",\"m\"]]"),
    (["b.prog".toList], "[[\"throw\",\"no value\"]]"),
    (["c.prog".toList], "[[\"set\",\"v\",[null]]]")]

def trioPaths : List Path := ["/a.prog", "/b.prog", "/c.prog"]

def trioRank (p : Path) : Nat := if p = "/a.prog" then 1 else 0

/-- Steps are served. -/
def stepped : Session := [.register "prog" .steps]

theorem layered_trio : (stepped.run (.start trio)).Layered (· ∈ trioPaths) trioRank := by
  have hserved : ∀ p ∈ trioPaths, (stepped.run (.start trio)).registry.handlerFor p = .steps := by
    simp only [trioPaths, List.forall_mem_cons]
    exact ⟨rfl, rfl, rfl, nofun⟩
  have hown : ∀ p ∈ trioPaths, ∀ step ∈ (stepped.run (.start trio)).program p, step.Own := by
    decide +kernel
  refine .of_closed (by decide +kernel) (fun p hp => .steps (hserved p hp) (hown p hp)) ?_
  decide +kernel

theorem transparent_trio :
    ((run [.runMain "/c.prog", .loadExports "/b.prog", .evict "/c.prog", .loadExports "/a.prog"]
        (stepped.run (.start trio))).loadExports "/a.prog").1 =
      ((stepped.run (.start trio)).loadExports "/a.prog").1 := by
  refine transparent trio stepped _ (· ∈ trioPaths) trioRank ?_ ?_ layered_trio ?_ ?_ ?_ ?_
  · simp [stepped, Operation.Prepares]
  · unfold Resolution.Unbroken
    decide +kernel
  · simp [Operation.Visits, trioPaths]
  · decide
  · decide +kernel
  · decide +kernel

/-- A module that asks for a file in a directory, which does not find what it asks for itself. -/
def nested : World :=
  filed [["x.a".toList], ["x.a".toList, "b".toList]]
    [(["q.prog".toList], "[[\"require\",\"./x\",\"m\"]]"),
      (["x.a".toList, "b".toList, "c.prog".toList], "[[\"try\",\"./none\",\"e\"]]")]

def nestedPaths : List Path := ["/q.prog", "/x.a/b/c.prog", "/x.a//b/c.prog"]

def nestedRank (p : Path) : Nat := if p = "/q.prog" then 1 else 0

/-- Steps are served, also in files that are found by an extension that leads into a directory. -/
def slashed : Session := [.register "prog" .steps, .register "a//b/c.prog" .steps]

theorem layered_nested : (slashed.run (.start nested)).Layered (· ∈ nestedPaths) nestedRank := by
  have hserved : ∀ p ∈ nestedPaths,
      (slashed.run (.start nested)).registry.handlerFor p = .steps := by
    simp only [nestedPaths, List.forall_mem_cons]
    exact ⟨rfl, rfl, rfl, nofun⟩
  have hown : ∀ p ∈ nestedPaths, ∀ step ∈ (slashed.run (.start nested)).program p, step.Own := by
    decide +kernel
  have hentries : ∀ p ∈ nestedPaths, ∀ q ∈ (Host.absolute nested.tree p).toOption,
      q ∈ nestedPaths := by
    decide +kernel
  refine .of_closed hentries (fun p hp => .steps (hserved p hp) (hown p hp)) ?_
  decide +kernel

/-- With an extension that holds separators the history shows: a file that is found by it says of
its directory what it has said under the path by which it was loaded before. And the history shows
where a load is refused: if the stack holds but one load, a module that asks for another one can be
loaded only when the other one has been loaded before. -/
theorem not_transparent_nested :
    ((∀ o ∈ slashed, o.Prepares) ∧
      (slashed.run (.start nested)).Layered (· ∈ nestedPaths) nestedRank ∧
      (∀ o ∈ ([.loadExports "/x.a/b/c.prog"] : Session), o.Visits (· ∈ nestedPaths)) ∧
      (("/q.prog" : Path) ∈ nestedPaths) ∧
      (journal [.loadExports "/q.prog"] (slashed.run (.start nested))).Unrefused ∧
      (journal [.loadExports "/x.a/b/c.prog", .loadExports "/q.prog"]
        (slashed.run (.start nested))).Unrefused ∧
      ((run [.loadExports "/x.a/b/c.prog"] (slashed.run (.start nested))).loadExports "/q.prog").1 ≠
        ((slashed.run (.start nested)).loadExports "/q.prog").1) ∧
    (Host.loadWithin 2 homeRealm "/a.prog" (stepped.run (.start trio))).1.toOption = none ∧
      (Host.loadWithin 2 homeRealm "/a.prog"
        (run [.runMain "/c.prog"] (stepped.run (.start trio)))).1.toOption.isSome := by
  refine ⟨⟨by simp [slashed, Operation.Prepares], layered_nested,
    by simp [Operation.Visits, nestedPaths], by decide, by decide +kernel, by decide +kernel,
    fun h => ?_⟩, by decide +kernel, by decide +kernel⟩
  have hshown := congrArg (fun r => r.toOption.map Json.compact) h
  revert hshown
  decide +kernel

end Session
end LoadHook
