import LoadHook.Proofs.Registry.Descent
import LoadHook.Proofs.Registry.Registration

/-!
# Visits

Modules are entered and removed in a host in which all modules are given without scripts. At every
moment of such a history the world and the handlers are as they were, all that is registered is a
module object, modules ask from the directories of modules whose load has begun, and code leaves
the marks of registered modules alone.

Every load ends, in whatever state modules that were loaded, removed, or failed before have left the
registry, and also where it begins while others are in progress. How deep handlers are nested is
bounded by the number of files.
-/
namespace LoadHook

open Script (Value RealmRef Ref Heap ground)
open Host (homeRealm)
open Journal (Every deepest)

variable {h₀ h g : Host} {p q : Path} {m : Ref} {limit : Nat} {α : Type} {j k : Journal}
  {Q : Workspace → α → Prop} {o : Operation}

namespace Operation

/-- A module is entered at one of some paths, or modules are removed. -/
def Visits (entries : Path → Prop) : Operation → Prop
  | .runMain p | .loadExports p => entries p
  | .evict _ | .clear => True
  | _ => False

end Operation

/-- A path from outside is made canonical. -/
theorem Host.canonical_absolute {t : FileTree} (hp : Host.absolute t q = .ok p) :
    p.Canonical := by
  unfold Host.absolute at hp
  split at hp
  · cases hp
  · split at hp
    · next habs =>
      cases hp
      exact Path.canonical_normalize habs
    · cases hp
      exact Path.canonical_normalize (Path.isAbsolute_join rfl _)

/-! ## Parts of a history -/

/-- A part of a history that keeps to what there was at each of its moments, and in which modules
ask from where they are. -/
structure Visited (h₀ g : Host) (j : Journal) : Prop where
  stems : h₀.Stems g
  moments : ∀ x ∈ j, x.Stems h₀
  aims : ∀ past, Every Aims past j

namespace Visited

theorem nil (hs : h₀.Stems h) : Visited h₀ h [] where
  stems := hs
  moments _ hx := absurd hx List.not_mem_nil
  aims _ := trivial

theorem append (a : Visited h₀ h j) (b : Visited h₀ g k) : Visited h₀ g (j ++ k) where
  stems := b.stems
  moments _ hx := (List.mem_append.mp hx).elim (a.moments _) (b.moments _)
  aims past := Journal.every_append.mpr ⟨a.aims past, b.aims (past ++ j)⟩

/-- Modules are removed without asking for anything. -/
theorem removed {what : Happening} (hs : h₀.Stems h)
    (hwhat : what = .cleared ∨ ∃ p, what = .evicted p) : Visited h₀ h [⟨what, h⟩] := by
  obtain rfl | ⟨p, rfl⟩ := hwhat
  all_goals
    refine ⟨hs, fun x hx => ?_, fun _ => by simp [Aims]⟩
    exact List.mem_singleton.mp hx ▸ ⟨hs, by simp, by simp⟩

theorem of_passage (a : Passage h₀ False none h limit g j) : Visited h₀ g j where
  stems := a.stems
  moments := a.moments
  aims past := a.aims past nofun

/-- Wherever a module is called, its names mean nothing special. -/
theorem plain (a : Visited h₀ g j) : j.Plain := by
  intro x hx realm p hwhat _
  obtain ⟨hs, hhome, -⟩ := a.moments x hx
  rw [hhome realm p hwhat]
  exact (Script.plainFor_ground x.host.workspace.world).extends hs.grounded

theorem aimed (a : Visited h₀ g j) (past : Journal) (x : Moment) (rest : Journal)
    (hj : j = past ++ x :: rest) : Aims past x :=
  Journal.every_iff.mp (a.aims []) past x rest hj

end Visited

/-! ## Entries -/

namespace Recorded

/-- What is done with a failure outside of scripts changes nothing. -/
theorem passes_conclude {r : Record (Except Failure α)} (hr : Ends h₀ False none h limit Q r) :
    Passage h₀ False none h limit (conclude r).host (conclude r).journal ∧
      ∀ a, (conclude r).result = .ok a → Q (conclude r).host.workspace a := by
  obtain ⟨result, g, j⟩ := r
  obtain ⟨hpasses, ⟨a, hresult, hq⟩ | ⟨e, hresult, htold⟩⟩ := hr
  · cases hresult
    exact ⟨hpasses, fun b hb => Except.ok.inj hb ▸ hq⟩
  · cases hresult
    obtain ⟨err, hcaught⟩ := caught_of_told homeRealm htold
    simp only [conclude, perform_of_done hcaught]
    refine ⟨hpasses.trans ?_, by simp⟩
    exact .code hpasses.stems (.refl hpasses.stems.grounded) .code

/-- Showing the exports of a module keeps the heap in order, and asks for nothing. -/
theorem orderly_exportsText {w : Workspace} (hg : ground.Extends w.heap)
    (hm : w.heap.ModuleAt p m) :
    Orderly (Requirement.From none) (fun _ _ => True) w (Host.exportsText m w) := by
  refine (orderly_exports hg hm).bind fun w' v hw hv => ?_
  have hread := Script.Settles.of_reads hw.heap.grounded
    (Script.reads_documentOf Script.standardMachine homeRealm hw.heap.grounded hv)
  exact (Orderly.script hread).bind fun w'' _ hw' _ => .done (.refl hw'.heap.grounded) trivial

variable (hplot : h₀.Plotted)
include hplot

theorem passes_enter (hp : p.Canonical) (hs : h₀.Stems h) :
    ∃ n, Passage h₀ False none h n (enter p h).host (enter p h).journal ∧
      ∀ m, (enter p h).result = .ok m → Loaded (enter p h).host.workspace m :=
  ⟨_, passes_conclude (ends_any hplot hp hs Host.depthLimit)⟩

theorem visited_runMain (p : Path) (hs : h₀.Stems h) :
    Visited h₀ (runMain p h).host (runMain p h).journal := by
  unfold runMain
  split
  · exact .nil hs
  · next hq =>
    obtain ⟨n, hentered, -⟩ := passes_enter hplot (Host.canonical_absolute hq) hs
    exact .of_passage hentered

theorem visited_loadExports (p : Path) (hs : h₀.Stems h) :
    Visited h₀ (loadExports p h).host (loadExports p h).journal := by
  unfold loadExports
  split
  · exact .nil hs
  · next q hq =>
    obtain ⟨n, hentered, hloaded⟩ := passes_enter hplot (Host.canonical_absolute hq) hs
    dsimp only
    generalize enter q h = entered at hentered hloaded
    obtain ⟨result, g, j⟩ := entered
    cases result with
    | error e => exact .of_passage hentered
    | ok m =>
      obtain ⟨p', hm⟩ := hloaded m rfl
      obtain ⟨-, hends⟩ := ends_follow ((within_any hplot Host.depthLimit).2 _) .code
        (orderly_exportsText hentered.stems.grounded hm) hentered.stems (Nat.le_refl _)
      obtain ⟨hshown, -⟩ := passes_conclude hends
      exact (Visited.of_passage hentered).append (.of_passage hshown)

end Recorded

/-! ## Histories -/

theorem Host.Stems.clear (hs : h₀.Stems h) : h₀.Stems h.clear where
  grounded := hs.grounded
  world := hs.world
  handlers := hs.handlers
  modules _ _ hm := by cases hm

/-- What one visit comes to. -/
theorem Operation.visited (ho : o.Visits fun _ => True) (hplot : h₀.Plotted)
    (hs : h₀.Stems h) : Visited h₀ (o.run h) (o.journal h) := by
  cases o with
  | runMain p =>
    have hvisited := Recorded.visited_runMain hplot p hs
    rwa [Recorded.host_runMain] at hvisited
  | loadExports p =>
    have hvisited := Recorded.visited_loadExports hplot p hs
    rwa [Recorded.host_loadExports] at hvisited
  | evict p =>
    change Visited h₀ (h.evict p).2 (Recorded.evict p h).journal
    simp only [Host.evict, Recorded.evict]
    cases Host.absolute h.workspace.world.tree p with
    | error _ => exact .nil hs
    | ok q => exact .removed (hs.withoutModule q) (.inr ⟨q, rfl⟩)
  | clear => exact .removed hs.clear (.inl rfl)
  | _ => exact ho.elim

namespace Session

/-- Nothing is registered yet in a host that has only been prepared. -/
theorem stems_prepared (w : World) {setup : Session} (hsetup : ∀ o ∈ setup, o.Prepares) :
    (setup.run (.start w)).Stems (setup.run (.start w)) := by
  obtain ⟨hmodules, hheap, -, -⟩ := setup.prepared hsetup (.start w)
  refine ⟨?_, rfl, rfl, fun q m hm => ?_⟩
  · rw [hheap, Script.heap_start]
    exact .refl ground
  · rw [hmodules] at hm
    cases hm

/-- What visits come to. -/
theorem visited (history : Session) (hvisits : ∀ o ∈ history, o.Visits fun _ => True)
    (hplot : h₀.Plotted) (hs : h₀.Stems h) :
    Visited h₀ (history.run h) (history.journal h) := by
  induction history generalizing h with
  | nil => exact .nil hs
  | cons o rest ih =>
    have ho := Operation.visited (hvisits o List.mem_cons_self) hplot hs
    exact ho.append (ih (fun o ho => hvisits o (List.mem_cons_of_mem _ ho)) ho.stems)

/-- Visits to a host that has just been started, and in which handlers and hooks have been
prepared. -/
theorem visited_prepared (w : World) {setup history : Session}
    (hsetup : ∀ o ∈ setup, o.Prepares) (hplot : (setup.run (.start w)).Plotted)
    (hvisits : ∀ o ∈ history, o.Visits fun _ => True) :
    Visited (setup.run (.start w)) ((setup ++ history).run (.start w))
      ((setup ++ history).journal (.start w)) := by
  rw [run_append, journal_of_prepared hsetup]
  exact history.visited hvisits hplot (stems_prepared w hsetup)

end Session

/-! ## A tangle of modules -/

/-- Modules ask straight for what they ask for if those at some paths do at which all files are. -/
theorem Host.straight_of_paths (ps : List Path) (ht : h.workspace.world.tree.Unlinked)
    (hfiles : ∀ place ∈ h.workspace.world.tree.files, ∃ q ∈ ps, q.names = place)
    (hcanonical : ∀ q ∈ ps, q.Canonical)
    (hread : ∀ q ∈ ps, (h.workspace.world.tree.readText q).toOption.isSome)
    (hps : ∀ q ∈ ps, ∀ step ∈ h.program q, ∀ s ∈ step.asked, Resolution.Straight s)
    {specifier : String} (hp : p.Canonical) (ha : h.Asks p specifier) :
    Resolution.Straight specifier := by
  obtain ⟨-, step, hstep, hspecifier⟩ := ha
  cases htext : h.workspace.world.tree.readText p with
  | error cause =>
    rw [Host.program, htext] at hstep
    cases hstep
  | ok text =>
    obtain ⟨q, hq, hnames⟩ := hfiles _ (FileTree.file_of_readText ht hp htext).1
    have hqread := hread q hq
    cases hqtext : h.workspace.world.tree.readText q with
    | error cause =>
      rw [hqtext] at hqread
      cases hqread
    | ok text' =>
      have hsame := FileTree.readText_unique ht hp (hcanonical q hq) hnames.symm htext hqtext
      have hprogram : h.program p = h.program q := by rw [program, htext, hsame, program, hqtext]
      exact hps q hq step (hprogram ▸ hstep) specifier hspecifier

namespace Session

/-- A world of directories and files. -/
def filed (dirs : List Place) (files : List (Place × String)) : World :=
  ⟨⟨dirs.map (·, .dir ⟨0⟩) ++ files.map fun file => (file.1, .file file.2.toUTF8 ⟨0⟩ 0), []⟩, [],
    ⟨0⟩, 1, #[]⟩

/-- Modules that ask for each other and for themselves, over and over, and fail. -/
def tangle : World :=
  filed [] [(["a.js".toList],
      "[[\"try\",\"./c\",\"x\"],[\"try\",\"./c\",\"y\"],[\"require\",\"./b\",\"b\"]]"),
    (["b.js".toList], "[[\"require\",\"./a\",\"a\"],[\"require\",\"./b\",\"b\"]]"),
    (["c.js".toList], "[[\"require\",\"./b\",\"b\"],[\"throw\",\"no value\"]]")]

def tanglePaths : List Path := ["/a.js", "/b.js", "/c.js"]

/-- Steps are served in place of scripts. -/
def steppedOnly : Session := [.register "js" .steps]

theorem plotted_tangle : (steppedOnly.run (.start tangle)).Plotted where
  listed := by
    refine Registry.handlerFor_of_registered (fun e f hf => ?_) rfl
    have hf : (e, f) ∈ [("js", .steps), ("json", .json)] := hf
    simp only [List.mem_cons, Prod.mk.injEq, List.not_mem_nil, or_false] at hf
    rcases hf with ⟨-, rfl⟩ | ⟨-, rfl⟩
    · exact .steps
    · exact .json
  unbroken := by
    unfold Resolution.Unbroken
    decide +kernel
  unlinked := by decide +kernel
  straight p specifier hp ha := by
    refine Host.straight_of_paths tanglePaths ?_ ?_ ?_ ?_ ?_ hp ha
    · decide +kernel
    · decide +kernel
    · simp only [tanglePaths, List.forall_mem_cons]
      exact ⟨⟨rfl, by decide⟩, ⟨rfl, by decide⟩, ⟨rfl, by decide⟩, nofun⟩
    · decide +kernel
    · unfold Resolution.Straight
      decide +kernel

/-- Modules are loaded and read, and one of them is removed and loaded again. -/
def rounds : Session :=
  [.runMain "/a.js", .loadExports "/c.js", .evict "/a.js", .runMain "/a.js"]

theorem visited_tangle :
    Visited (steppedOnly.run (.start tangle)) ((steppedOnly ++ rounds).run (.start tangle))
      ((steppedOnly ++ rounds).journal (.start tangle)) :=
  visited_prepared tangle (by simp [steppedOnly, Operation.Prepares]) plotted_tangle
    (by simp [rounds, Operation.Visits])

-- a module that has failed is run again each time, and one that has been loaded is not
example :
    (Journal.dispatches ((steppedOnly ++ rounds).journal (.start tangle))).map Prod.fst =
      ["/a.js", "/c.js", "/b.js", "/c.js", "/c.js", "/a.js", "/c.js", "/c.js"] := by
  decide +kernel

/-! ## Loading ends -/

/-- The hosts that a session comes through. -/
def hosts (ops : Session) (h : Host) : List Host :=
  ops.run h :: (ops.journal h).map Moment.host

theorem stems (history : Session) (hvisits : ∀ o ∈ history, o.Visits fun _ => True)
    (hplot : h₀.Plotted) (hs : h₀.Stems h) {g : Host} (hg : g ∈ history.hosts h) : h₀.Stems g := by
  have hvisited := history.visited hvisits hplot hs
  rcases List.mem_cons.mp hg with rfl | hg
  · exact hvisited.stems
  · obtain ⟨x, hx, rfl⟩ := List.mem_map.mp hg
    exact (hvisited.moments x hx).host

end Session

end LoadHook
