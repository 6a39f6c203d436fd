import LoadHook.Proofs.Files.Places
import LoadHook.Proofs.Journal.Beginning
import LoadHook.Proofs.Module.Orderly
import LoadHook.Proofs.Module.Resolution

/-!
# Loads that lead to fewer files

While a module is being filled it is registered, and no load that is nested inside it removes what
was registered before. So each module that is dispatched inside another one is a file under which
nothing was registered, and there are fewer such files left inside of it. This bounds how deep
handlers are nested, and how deep loads are: more depth changes nothing. On the way modules ask from
their own directories only, and nobody but the host marks them.

Answerers and loaders are compared in pairs. A pair of one answerer tells what becomes of a load at
any depth, and a pair of two says that the depth does not matter.
-/
namespace LoadHook

open Script (Value RealmRef Ref Heap ground)
open Host (homeRealm)
open Journal (Every)

/-! ## Hosts of modules that are given as steps -/

/-- A requirement that leads from a canonical directory straight to a canonical path. -/
structure Requirement.Fits (q : Requirement) : Prop where
  realm : q.realm = homeRealm
  dir : q.dir.Canonical
  straight : Resolution.Straight q.specifier

/-- Who asks for a module is being filled itself, and asks from its own directory. -/
structure Requirement.From (asking : Option Path) (q : Requirement) : Prop extends q.Fits where
  directory : ∃ p ∈ asking, p.parent = some q.dir

/-- Who asks for a module stands in the directory of a module whose load has begun, and names it
by a straight specifier. -/
def Aims (past : Journal) (x : Moment) : Prop :=
  ∀ part q, x.what = .asked part q →
    Resolution.Straight q.specifier ∧ ∃ p, Begun p past ∧ p.parent = some q.dir

namespace Host

/-- A host in which all modules are given without scripts, no file is a symbolic link, no extension
leads into a directory, and modules ask straight for what they ask for. -/
structure Plotted (h : Host) : Prop where
  listed : ∀ p, (h.registry.handlerFor p).Listed
  unbroken : Resolution.Unbroken h.registry.extensions
  unlinked : h.workspace.world.tree.Unlinked
  straight : ∀ p specifier, p.Canonical → h.Asks p specifier → Resolution.Straight specifier

/-- A host in which modules have been loaded since: the world and the handlers are the same, and all
that is registered is a module object. -/
structure Stems (h₀ h : Host) : Prop where
  grounded : ground.Extends h.workspace.heap
  world : h.workspace.world = h₀.workspace.world
  handlers : h.registry.handlers = h₀.registry.handlers
  modules : ∀ p m, h.registry.modules.get? p = some m → ∃ q, h.workspace.heap.ModuleAt q m

/-- How many files there are under which a host has no module. -/
def pending (h₀ h : Host) : Nat :=
  (h₀.workspace.world.tree.files.filter fun place =>
    !h.registry.isLoaded (FileTree.pathOf place)).length

variable {h₀ h g : Host} {p q : Path} {m : Ref} {w : Workspace}

/-- The more is registered, the fewer files are left. -/
theorem pending_mono
    (hkept : ∀ p, (h.registry.modules.get? p).isSome → (g.registry.modules.get? p).isSome) :
    h₀.pending g ≤ h₀.pending h := by
  refine (List.monotone_filter_right _ fun place hplace => ?_).length_le
  rw [Bool.not_eq_true'] at hplace ⊢
  refine Bool.eq_false_iff.mpr fun hloaded => ?_
  rw [Registry.isLoaded, PathMap.contains] at hplace hloaded
  rw [hkept _ hloaded] at hplace
  cases hplace

/-- What is registered under a path stays registered with another module. -/
theorem isSome_insert (hp : (h.registry.modules.get? q).isSome) :
    ((h.registry.insert p m).modules.get? q).isSome := by
  by_cases hs : p.same q
  · rw [Registry.insert, PathMap.get?_insert_of_same hs]
    rfl
  · rw [Registry.insert, PathMap.get?_insert_of_not_same (Bool.eq_false_iff.mpr hs)]
    exact hp

/-- Where a module is registered for a file, fewer files are left. -/
theorem pending_withModule (ht : h₀.workspace.world.tree.Unlinked) (hp : p.Canonical)
    (hfile : h₀.workspace.world.tree.isFile p) (hnone : h.registry.modules.get? p = none)
    (m : Ref) :
    h₀.pending (h.withModule p m) < h₀.pending h := by
  have hsub := List.monotone_filter_right h₀.workspace.world.tree.files
    (p := fun place => !(h.withModule p m).registry.isLoaded (FileTree.pathOf place))
    (q := fun place => !h.registry.isLoaded (FileTree.pathOf place)) fun place hplace => by
      rw [Bool.not_eq_true'] at hplace ⊢
      refine Bool.eq_false_iff.mpr fun hloaded => ?_
      exact Bool.eq_false_iff.mp hplace (isSome_insert hloaded)
  refine Nat.lt_of_le_of_ne hsub.length_le fun hlength => ?_
  have hplaces := hsub.eq_of_length hlength
  have hold : p.names ∈ h₀.workspace.world.tree.files.filter fun place =>
      !h.registry.isLoaded (FileTree.pathOf place) := by
    refine List.mem_filter.mpr ⟨FileTree.mem_files_of_isFile ht hp hfile, ?_⟩
    rw [Registry.isLoaded, PathMap.contains, ← PathMap.get?_congr hp.same_pathOf, hnone]
    rfl
  rw [← hplaces] at hold
  have hnew := (List.mem_filter.mp hold).2
  rw [Registry.isLoaded, PathMap.contains, ← PathMap.get?_congr hp.same_pathOf, withModule,
    Registry.insert, PathMap.get?_insert_of_same (Path.same_refl p)] at hnew
  cases hnew

namespace Stems

variable (hs : h₀.Stems h)
include hs

theorem handlerFor (p : Path) : h.registry.handlerFor p = h₀.registry.handlerFor p := by
  simp only [Registry.handlerFor, Registry.handler?, hs.handlers]

theorem resolve (specifier : String) (dir : Path) :
    h.resolve specifier dir = h₀.resolve specifier dir := by
  simp only [Host.resolve, Registry.extensions, hs.handlers, hs.world]

theorem asks {specifier : String} (ha : h.Asks p specifier) : h₀.Asks p specifier := by
  have hprogram : h.program p = h₀.program p := by
    unfold Host.program
    rw [hs.world]
  rwa [Host.Asks, hs.handlerFor, hprogram] at ha

/-- A step of a load keeps to what there was. -/
theorem step (hw : h.workspace.Onward w) : h₀.Stems ⟨h.registry, w⟩ where
  grounded := hw.heap.grounded
  world := hw.world.trans hs.world
  handlers := hs.handlers
  modules p m hm := (hs.modules p m hm).imp fun q => hw.heap.modules q m

theorem withModule (hm : h.workspace.heap.ModuleAt q m) (p : Path) :
    h₀.Stems (h.withModule p m) where
  grounded := hs.grounded
  world := hs.world
  handlers := hs.handlers
  modules p' m' hm' := by
    rcases PathMap.get?_insert_eq_some hm' with ⟨-, rfl⟩ | ⟨-, hold⟩
    · exact ⟨q, hm⟩
    · exact hs.modules p' m' hold

theorem withoutModule (p : Path) : h₀.Stems (h.withoutModule p) where
  grounded := hs.grounded
  world := hs.world
  handlers := hs.handlers
  modules p' m' hm' := hs.modules p' m' (PathMap.get?_erase_eq_some hm').2

/-- What a module asks for is asked for from its directory. -/
theorem asked (h₀P : h₀.Plotted) (hp : p.Canonical) {specifier : String}
    (ha : h.Asks p specifier) :
    Requirement.From (some p) ⟨specifier, p.parent.getD "", homeRealm⟩ := by
  have hstraight := h₀P.straight p specifier hp (hs.asks ha)
  obtain ⟨-, step, hstep, -⟩ := ha
  unfold Host.program at hstep
  rw [hs.world] at hstep
  split at hstep
  · cases hstep
  · next htext =>
    obtain ⟨d, hd⟩ := FileTree.parent_of_readText h₀P.unlinked hp htext
    rw [hd]
    exact ⟨⟨rfl, hp.parent hd, hstraight⟩, p, rfl, hd⟩

/-- A step of a load leaves the marks of registered modules alone. -/
theorem marks (hw : h.workspace.Steady w) (hm : h.registry.modules.get? p = some m) :
    w.heap.own m loadedKey = h.workspace.heap.own m loadedKey := by
  obtain ⟨q, hq⟩ := hs.modules p m hm
  exact hw.heap.marks q m hq

end Stems

end Host

/-! ## Parts of runs -/

section Descent

variable {h₀ h g : Host} {strict : Prop} {asking : Option Path} {limit n : Nat} {α β : Type}
  {j k : Journal} {Q : Workspace → α → Prop}

/-- A moment in a host in which modules have been loaded: modules are asked for by the host itself,
and what runs between two requirements leaves the marks of registered modules alone. -/
structure Moment.Stems (h₀ : Host) (x : Moment) : Prop where
  host : h₀.Stems x.host
  home : ∀ realm p, x.what = .called realm p → realm = homeRealm
  spares : ∀ h, x.what = .ran .code h → ∀ p m, h.registry.modules.get? p = some m →
    x.host.workspace.heap.own m loadedKey = h.workspace.heap.own m loadedKey

/-- A part of a run leads from a host to another one: what was registered before still is, handlers
are nested as deep as a limit allows, modules ask from their own directories as long as the load of
the one that is being filled has begun, and where nothing else is said no load is refused for being
nested too deep. -/
structure Passage (h₀ : Host) (strict : Prop) (asking : Option Path) (h : Host) (limit : Nat)
    (g : Host) (j : Journal) : Prop where
  stems : h₀.Stems g
  onward : h.workspace.Onward g.workspace
  kept : ∀ p, (h.registry.modules.get? p).isSome → (g.registry.modules.get? p).isSome
  nested : j.Nested limit
  moments : ∀ x ∈ j, x.Stems h₀
  aims : ∀ past, (∀ p ∈ asking, Begun p past) → Every Aims past j
  served : strict → ∀ x ∈ j, ∀ p, x.what ≠ .tooDeep p

/-- Happenings at which nothing runs, and no handler begins or ends. -/
inductive Happening.Still : Happening → Prop
  | called (p : Path) : Still (.called homeRealm p)
  | returned (c : Call) : Still (.returned c)
  | answered (q : Requirement) (before : Host) (a : Except Value Value) :
    Still (.answered q before a)

namespace Passage

theorem refl (hs : h₀.Stems h) : Passage h₀ strict asking h limit h [] where
  stems := hs
  onward := .refl hs.grounded
  kept _ := id
  nested := .nil
  moments _ hx := absurd hx List.not_mem_nil
  aims _ _ := trivial
  served _ _ hx := absurd hx List.not_mem_nil

theorem trans {i : Host} (a : Passage h₀ strict asking h limit g j)
    (b : Passage h₀ strict asking g limit i k) :
    Passage h₀ strict asking h limit i (j ++ k) where
  stems := b.stems
  onward := a.onward.trans b.onward
  kept p hp := b.kept p (a.kept p hp)
  nested := a.nested.append b.nested
  moments _ hx := (List.mem_append.mp hx).elim (a.moments _) (b.moments _)
  aims past hp := Journal.every_append.mpr
    ⟨a.aims past hp, b.aims (past ++ j) fun p hasking => (hp p hasking).append j⟩
  served hstrict _ hx := (List.mem_append.mp hx).elim (a.served hstrict _) (b.served hstrict _)

theorem mono {l : Nat} (a : Passage h₀ strict asking h l g j) (hl : l ≤ limit) :
    Passage h₀ strict asking h limit g j := { a with nested := a.nested.mono hl }

/-- What is asked for by nobody in particular may be asked for by anybody. -/
theorem anybody (a : Passage h₀ strict none h limit g j) : Passage h₀ strict asking h limit g j :=
  { a with aims := fun past _ => a.aims past nofun }

/-- A moment at which no handler begins or ends, and no load is refused. -/
theorem moment {what : Happening} {w : Workspace} (hw : h.workspace.Onward w)
    (hx : Moment.Stems h₀ ⟨what, ⟨h.registry, w⟩⟩)
    (haims : ∀ part q, what = .asked part q → q.From asking)
    (hwhat : ∀ open_, Journal.handling open_ ⟨what, ⟨h.registry, w⟩⟩ = open_)
    (hserved : ∀ p, what ≠ .tooDeep p) :
    Passage h₀ strict asking h limit ⟨h.registry, w⟩ [⟨what, ⟨h.registry, w⟩⟩] where
  stems := hx.host
  onward := hw
  kept _ := id
  nested := .single hwhat
  moments _ hy := List.mem_singleton.mp hy ▸ hx
  aims past hp := by
    refine ⟨fun part q hq => ?_, trivial⟩
    have hfrom := haims part q hq
    obtain ⟨p, hasking, hparent⟩ := hfrom.directory
    exact ⟨hfrom.straight, p, hp p hasking, hparent⟩
  served _ _ hy := List.mem_singleton.mp hy ▸ hserved

/-- A stretch without requirements. Code leaves the marks of modules alone. -/
theorem ran (part : Part) {w : Workspace} (hs : h₀.Stems h) (hw : h.workspace.Onward w)
    (hcode : part = .code → h.workspace.Steady w) :
    Passage h₀ strict asking h limit ⟨h.registry, w⟩ [⟨.ran part h, ⟨h.registry, w⟩⟩] := by
  refine .moment hw ⟨hs.step hw, by simp, ?_⟩ (by simp) (fun _ => rfl) (by simp)
  rintro _ ⟨⟩ p m hm
  exact hs.marks (hcode rfl) hm

theorem code {w : Workspace} (hs : h₀.Stems h) (hw : h.workspace.Steady w) (part : Part) :
    Passage h₀ strict asking h limit ⟨h.registry, w⟩ [⟨.ran part h, ⟨h.registry, w⟩⟩] :=
  .ran part hs hw.onward fun _ => hw

theorem asked (hs : h₀.Stems h) (part : Part) {q : Requirement} (hq : q.From asking) :
    Passage h₀ strict asking h limit h [⟨.asked part q, h⟩] := by
  refine .moment (.refl hs.grounded) ⟨hs, by simp, by simp⟩ ?_ (fun _ => rfl) (by simp)
  rintro _ _ ⟨⟩
  exact hq

theorem still {what : Happening} (hs : h₀.Stems h) (hwhat : what.Still) :
    Passage h₀ strict asking h limit h [⟨what, h⟩] := by
  cases hwhat <;>
    exact .moment (.refl hs.grounded) ⟨hs, by simp +contextual, by simp⟩ (by simp) (fun _ => rfl)
      (by simp)

theorem concat {what : Happening} (a : Passage h₀ strict asking h limit g j) (hwhat : what.Still) :
    Passage h₀ strict asking h limit g (j ++ [⟨what, g⟩]) :=
  a.trans (.still a.stems hwhat)

theorem pending_le (a : Passage h₀ strict asking h limit g j) : h₀.pending g ≤ h₀.pending h :=
  Host.pending_mono a.kept

/-- A handler runs, and the module that it is run for stays registered or is removed. -/
theorem handler {p : Path} {m : Ref} {i : Host} {what : Happening}
    (a : Passage h₀ strict asking (h.withModule p m) limit g j) (hs : h₀.Stems h)
    (hnone : h.registry.modules.get? p = none) (hm : h.workspace.heap.ModuleAt p m)
    (hwhat : what = .dropped p ∨ what = .completed p m) (hi : h₀.Stems i)
    (hworkspace : i.workspace = g.workspace)
    (hkept : ∀ q, p.same q = false → (g.registry.modules.get? q).isSome →
      (i.registry.modules.get? q).isSome) :
    Passage h₀ strict asking h (limit + 1) i
      (⟨.dispatched p m, h.withModule p m⟩ :: (j ++ [⟨what, i⟩])) where
  stems := hi
  onward := hworkspace ▸ a.onward
  kept q hq := by
    obtain ⟨n, hn⟩ := Option.isSome_iff_exists.mp hq
    exact hkept q (PathMap.not_same_of_get? hnone hn) (a.kept q (Host.isSome_insert hq))
  nested := by
    refine a.nested.handler (fun _ => rfl) fun open_ => ?_
    rcases hwhat with rfl | rfl <;> rfl
  moments x hx := by
    rcases List.mem_cons.mp hx with rfl | hx
    · exact ⟨hs.withModule hm p, by simp, by simp⟩
    · rcases List.mem_append.mp hx with hx | hx
      · exact a.moments x hx
      · rw [List.mem_singleton.mp hx]
        rcases hwhat with rfl | rfl <;> exact ⟨hi, by simp, by simp⟩
  aims past hp := by
    refine ⟨by simp [Aims], Journal.every_append.mpr ⟨?_, ?_, trivial⟩⟩
    · exact a.aims _ fun q hasking => (hp q hasking).append _
    · rcases hwhat with rfl | rfl <;> simp [Aims]
  served hstrict x hx := by
    rcases List.mem_cons.mp hx with rfl | hx
    · simp
    · rcases List.mem_append.mp hx with hx | hx
      · exact a.served hstrict x hx
      · rw [List.mem_singleton.mp hx]
        rcases hwhat with rfl | rfl <;> simp

/-- The load of a path begins, what is asked for is asked for by its module, and the load ends. -/
theorem bracket {p : Path} {c : Call} (a : Passage h₀ strict (some p) h limit g j)
    (hs : h₀.Stems h) : Passage h₀ strict none h limit g
      (⟨.called homeRealm p, h⟩ :: (j ++ [⟨.returned c, g⟩])) := by
  have hcalled : Passage h₀ strict none h limit h _ := .still hs (.called p)
  have hwhole := (hcalled.anybody.trans a).concat (.returned c)
  refine { hwhole with aims := fun past _ => ?_ }
  rw [← List.singleton_append, Journal.every_append]
  refine ⟨hcalled.aims past nofun, (a.concat (.returned c)).aims _ ?_⟩
  rintro q ⟨⟩
  exact ⟨⟨.called homeRealm p, h⟩, by simp, homeRealm, rfl⟩

end Passage

/-- How a part of a run ends: with a value for which something holds, or with a failure that can be
told. -/
structure Ends (h₀ : Host) (strict : Prop) (asking : Option Path) (h : Host) (limit : Nat)
    (Q : Workspace → α → Prop) (r : Record (Except Failure α)) : Prop where
  passes : Passage h₀ strict asking h limit r.host r.journal
  result : (∃ a, r.result = .ok a ∧ Q r.host.workspace a) ∨
    ∃ e, r.result = .error e ∧ e.Told r.host.workspace.heap

/-- Two answerers answer alike where not too many files are left, by data or by what can be told. -/
def Answering (h₀ : Host) (strict : Prop) (n : Nat) (f f' : Recorded.Answerer) : Prop :=
  ∀ q h, q.Fits → h₀.Stems h → h₀.pending h ≤ n → f' q h = f q h ∧
    Passage h₀ strict none h (h₀.pending h) (f q h).host (f q h).journal ∧
    (f q h).host.workspace.heap.Answers (f q h).result

/-- What is loaded is a module object. -/
def Loaded (w : Workspace) (m : Ref) : Prop := ∃ p, w.heap.ModuleAt p m

/-- Two loaders load files alike where not too many files are left. -/
def Loading (h₀ : Host) (strict : Prop) (n : Nat) (l l' : Recorded.Loader) : Prop :=
  ∀ p h, p.Canonical → h₀.workspace.world.tree.isFile p → h₀.Stems h → h₀.pending h ≤ n →
    l' homeRealm p h = l homeRealm p h ∧
      Ends h₀ strict none h (h₀.pending h) Loaded (l homeRealm p h)

namespace Recorded

variable {f f' : Answerer} {l l' : Loader} {p : Path} {m : Ref}

/-- A step that keeps the workspace in order, whatever it asks for. -/
theorem ends_follow (ha : Answering h₀ strict n f f') (part : Part)
    {t : Talk (Except Failure α × Workspace)}
    (ht : Orderly (Requirement.From asking) Q h.workspace t) (hs : h₀.Stems h)
    (hn : h₀.pending h ≤ n) :
    follow part f' t h = follow part f t h ∧
      Ends h₀ strict asking h (h₀.pending h) Q (follow part f t h) := by
  generalize hw : h.workspace = w at ht
  induction ht generalizing h with
  | done hgo hq => exact ⟨rfl, .code hs (hw ▸ hgo) part, .inl ⟨_, rfl, hq⟩⟩
  | failed hgo he => exact ⟨rfl, .code hs (hw ▸ hgo) part, .inr ⟨_, rfl, he⟩⟩
  | @ask w w₁ q next hgo hq _ ih =>
    have hran : Passage h₀ strict asking h (h₀.pending h) ⟨h.registry, w₁⟩ _ :=
      .code hs (hw ▸ hgo) part
    obtain ⟨hsame, hpasses, hanswers⟩ := ha q ⟨h.registry, w₁⟩ hq.toFits hran.stems hn
    obtain ⟨hrest, hends⟩ := ih _ _ hpasses.onward hanswers hpasses.stems
      (Nat.le_trans hpasses.pending_le hn) rfl
    have hasked := hran.trans (.asked hran.stems part hq)
    refine ⟨?_, ?_, hends.result⟩
    · simp only [follow, hsame, hrest]
    · exact (hasked.trans hpasses.anybody).trans (hends.passes.mono hpasses.pending_le)

/-! ## Loading modules -/

section Plotted

variable (hplot : h₀.Plotted)
include hplot

/-- A module that is registered is filled, or removed again. -/
theorem ends_populate (ha : Answering h₀ strict n f f') (hp : p.Canonical) (hs : h₀.Stems h)
    (hnone : h.registry.modules.get? p = none) (hm : h.workspace.heap.ModuleAt p m)
    (hn : h₀.pending (h.withModule p m) ≤ n) :
    populate f' homeRealm p m (h.withModule p m) = populate f homeRealm p m (h.withModule p m) ∧
      Ends h₀ strict (some p) h (n + 1) Loaded ((populate f homeRealm p m (h.withModule p m)).after
        [⟨.dispatched p m, h.withModule p m⟩]) := by
  have hregistered := hs.withModule hm p
  have hhandler : Orderly (Requirement.From (some p)) (fun _ _ => True) (h.withModule p m).workspace
      ((h.withModule p m).registry.handlerFor p homeRealm m (h.withModule p m).workspace) := by
    refine orderly_handlerFor hs.grounded hm rfl ?_ fun specifier hasks => ?_
    · rw [hregistered.handlerFor]
      exact hplot.listed p
    · exact hregistered.asked hplot hp hasks
  obtain ⟨hsame, hends⟩ := ends_follow ha .code hhandler hregistered hn
  simp only [populate, perform, hsame]
  generalize follow .code f _ (h.withModule p m) = handled at hends
  obtain ⟨result, g, j⟩ := handled
  obtain ⟨hpasses, ⟨_, hresult, -⟩ | ⟨e, hresult, htold⟩⟩ := hends
  · cases hresult
    have hmodule := hpasses.onward.heap.modules p m hm
    obtain ⟨b, hb⟩ := hmodule.loaded
    have hgo : g.workspace.Onward { g.workspace with heap := g.workspace.heap.mark m } :=
      ⟨rfl, .putModule hpasses.stems.grounded hmodule fun _ => .mark⟩
    have hmarked (f : Answerer) :
        follow .marking f (Load.setProperty homeRealm m "loaded" (.bool true) g.workspace) g =
          .single (.ran .marking g) (.ok ()) _ := perform_of_done (setLoaded_of_marked hb)
    have hfilled := hpasses.trans (.ran .marking hpasses.stems hgo (by rintro ⟨⟩))
    simp only [hmarked]
    refine ⟨trivial, ?_, .inl ⟨m, rfl, p, hgo.heap.modules p m hmodule⟩⟩
    exact (hfilled.mono hn).handler hs hnone hm (.inr rfl) hfilled.stems rfl fun _ _ => id
  · cases hresult
    refine ⟨rfl, ?_, .inr ⟨e, rfl, htold⟩⟩
    refine (hpasses.mono hn).handler hs hnone hm (.inl rfl) (hpasses.stems.withoutModule p) rfl
      fun q hq hloaded => ?_
    exact (congrArg Option.isSome (PathMap.get?_erase_of_not_same hq)).trans hloaded

/-- A module that is not registered is made and filled, or removed again. -/
theorem ends_loadNew (ha : Answering h₀ strict n f f') (hp : p.Canonical) (hs : h₀.Stems h)
    (hnone : h.registry.modules.get? p = none) (hn : ∀ m, h₀.pending (h.withModule p m) ≤ n) :
    loadNew f' homeRealm p h = loadNew f homeRealm p h ∧
      Ends h₀ strict (some p) h (n + 1) Loaded (loadNew f homeRealm p h) := by
  obtain ⟨m, w, hnew, hw⟩ := newModule_furnished (w := h.workspace) p
    ((Script.plainFor_ground h.workspace.world).extends hs.grounded)
  have hgo : h.workspace.Steady w := ⟨hw.world, .of_extends hs.grounded hw.old⟩
  have hmade : Passage h₀ strict (some p) h (n + 1) ⟨h.registry, w⟩ _ := .code hs hgo .making
  obtain ⟨hsame, hends⟩ := ends_populate hplot ha hp hmade.stems hnone (hw.moduleAt hs.grounded)
    (hn m)
  have hrecord (f : Answerer) : loadNew f homeRealm p h =
      (populate f homeRealm p m (Host.withModule ⟨h.registry, w⟩ p m)).after
        [⟨.ran .making h, ⟨h.registry, w⟩⟩,
          ⟨.dispatched p m, Host.withModule ⟨h.registry, w⟩ p m⟩] := by
    rw [loadNew, perform_of_done hnew]
    rfl
  rw [hrecord f, hrecord f', hsame]
  exact ⟨rfl, hmade.trans hends.passes, hends.result⟩

/-! ## Answering requirements -/

omit hplot in
/-- A load is written down between its call and its return. -/
theorem ends_bracket {r r' : Record (Except Failure Ref)} (hs : h₀.Stems h) (hsame : r' = r)
    (hr : Ends h₀ strict (some p) h limit Loaded r) :
    bracket homeRealm p h r' = bracket homeRealm p h r ∧
      Ends h₀ strict none h limit Loaded (bracket homeRealm p h r) :=
  ⟨hsame ▸ rfl, hr.passes.bracket hs, hr.result⟩

omit hplot in
/-- Nothing is run for a module that is registered. -/
theorem ends_found (hs : h₀.Stems h) (hm : h.registry.modules.get? p = some m) (d e : Nat) :
    loadWithin e homeRealm p h = loadWithin d homeRealm p h ∧
      Ends h₀ strict none h limit Loaded (loadWithin d homeRealm p h) := by
  rw [loadWithin_of_registered hm, loadWithin_of_registered hm]
  exact ends_bracket hs rfl ⟨.refl hs, .inl ⟨m, rfl, hs.modules p m hm⟩⟩

/-- A module that is not registered is loaded one level deeper than what it asks for. -/
theorem ends_loadWithin {d e : Nat} (ha : Answering h₀ strict n (answerWithin d) (answerWithin e))
    (hp : p.Canonical) (hs : h₀.Stems h) (hn : ∀ m, h₀.pending (h.withModule p m) ≤ n) :
    loadWithin (e + 1) homeRealm p h = loadWithin (d + 1) homeRealm p h ∧
      Ends h₀ strict none h (n + 1) Loaded (loadWithin (d + 1) homeRealm p h) := by
  cases hm : h.registry.modules.get? p with
  | some m => exact ends_found hs hm (d + 1) (e + 1)
  | none =>
    obtain ⟨hsame, hends⟩ := ends_loadNew hplot ha hp hs hm hn
    rw [loadWithin, loadWithin, hm]
    exact ends_bracket hs hsame hends

/-- Where no files are left every file is registered. -/
theorem loading_zero (d e : Nat) : Loading h₀ strict 0 (loadWithin d) (loadWithin e) := by
  intro p h hp hfile hs hn
  cases hm : h.registry.modules.get? p with
  | some m => exact ends_found hs hm d e
  | none =>
    have hless := Host.pending_withModule hplot.unlinked hp hfile hm 0
    omega

/-- A file that is loaded leaves fewer files to what it asks for. -/
theorem loading_succ {d e : Nat} (ha : Answering h₀ strict n (answerWithin d) (answerWithin e)) :
    Loading h₀ strict (n + 1) (loadWithin (d + 1)) (loadWithin (e + 1)) := by
  intro p h hp hfile hs hn
  cases hm : h.registry.modules.get? p with
  | some m => exact ends_found hs hm (d + 1) (e + 1)
  | none =>
    have hless := Host.pending_withModule hplot.unlinked hp hfile hm
    have hpos : 0 < h₀.pending h := Nat.lt_of_le_of_lt (Nat.zero_le _) (hless 0)
    have ha : Answering h₀ strict (h₀.pending h - 1) (answerWithin d) (answerWithin e) :=
      fun q g hq hg hle => ha q g hq hg (by omega)
    have hload := ends_loadWithin hplot ha hp hs fun m => Nat.le_sub_one_of_lt (hless m)
    rwa [Nat.sub_add_cancel hpos] at hload

/-- What is asked for is looked up, loaded and handed over. -/
theorem ends_requireWith (f f' : Answerer) (hl : Loading h₀ strict n l l') {q : Requirement}
    (hq : q.Fits) (hs : h₀.Stems h) (hn : h₀.pending h ≤ n) :
    requireWith l' f' q h = requireWith l f q h ∧
      Ends h₀ strict none h (h₀.pending h) (fun w v => w.heap.Datum v) (requireWith l f q h) := by
  simp only [requireWith, hs.resolve, hq.realm]
  cases hp : h₀.resolve q.specifier q.dir with
  | error e =>
    have htold : Failure.Told h.workspace.heap (.error e) := .inl ⟨e, rfl⟩
    exact ⟨rfl, .refl hs, .inr ⟨_, rfl, htold⟩⟩
  | ok p =>
    have hresolved : Resolution.resolve h₀.workspace.world.tree h₀.registry.extensions q.specifier
        q.dir = some p := by
      unfold Host.resolve at hp
      split at hp
      · next hr =>
        cases hp
        exact hr
      · cases hp
    obtain ⟨hsame, hends⟩ := hl p h
      (Resolution.canonical_resolve hplot.unbroken hq.dir hq.straight hresolved)
      (Resolution.isFile_resolve hresolved) hs hn
    simp only [hsame]
    generalize l homeRealm p h = loaded at hends
    obtain ⟨result, g, j⟩ := loaded
    obtain ⟨hpasses, ⟨m, hresult, p', hm⟩ | ⟨e, hresult, htold⟩⟩ := hends
    · cases hresult
      obtain ⟨v, hv, hdata⟩ := hm.exports
      have hread (f : Answerer) : perform .code f (Load.exports homeRealm m) g =
          .single (.ran .code g) (.ok v) g :=
        perform_of_done (exports_of_holds ⟨true, true, true, hv⟩)
      simp only [hread]
      exact ⟨trivial, hpasses.trans (.code hpasses.stems (.refl hpasses.stems.grounded) .code),
        .inl ⟨v, rfl, hdata⟩⟩
    · cases hresult
      exact ⟨rfl, hpasses, .inr ⟨e, rfl, htold⟩⟩

/-- What fails is thrown where it was asked for. -/
theorem answering_answerWith (hl : Loading h₀ strict n l l') :
    Answering h₀ strict n (answerWith l f) (answerWith l' f') := by
  intro q h hq hs hn
  obtain ⟨hsame, hends⟩ := ends_requireWith hplot f f' hl hq hs hn
  simp only [answerWith, hsame, hq.realm]
  generalize requireWith l f q h = required at hends
  obtain ⟨result, g, j⟩ := required
  obtain ⟨hpasses, ⟨v, hresult, hdata⟩ | ⟨e, hresult, htold⟩⟩ := hends
  · cases hresult
    exact ⟨rfl, hpasses.concat (.answered ..), .value hdata⟩
  · cases hresult
    obtain ⟨v, i, hdone, ext, hv⟩ := throwable_of_told homeRealm htold
    have hgo : g.workspace.Steady { g.workspace with heap := i } :=
      ⟨rfl, .of_extends hpasses.stems.grounded ext⟩
    have hstep := hpasses.trans (.code hpasses.stems hgo .throwing)
    simp only [perform_of_done hdone, Record.single]
    exact ⟨trivial, hstep.concat (.answered ..), .thrown hv⟩

/-! ## All depths -/

omit hplot in
theorem answerWithin_succ (d : Nat) :
    answerWithin (d + 1) = answerWith (loadWithin d) (answerWithin d) := by
  funext q h
  rw [answerWithin]

omit hplot in
/-- Where no depth is left a module is given back, or refused. -/
theorem ends_loadWithin_zero (hs : h₀.Stems h) :
    Ends h₀ False none h limit Loaded (loadWithin 0 homeRealm p h) := by
  cases hm : h.registry.modules.get? p with
  | some m => exact (ends_found hs hm 0 0).2
  | none =>
    have htold : Failure.Told h.workspace.heap
        (.error (.engine .range "Maximum call stack size exceeded")) := .inl ⟨_, rfl⟩
    rw [loadWithin, hm]
    refine (ends_bracket hs rfl ⟨⟨hs, .refl hs.grounded, fun _ => id, .single fun _ => rfl,
      fun x hx => ?_, fun _ _ => by simp [Record.single, Aims], False.elim⟩,
      .inr ⟨_, rfl, htold⟩⟩).2
    exact List.mem_singleton.mp hx ▸ ⟨hs, by simp, by simp⟩

/-- Whatever the depth, a load nests handlers no deeper than there are files left, and an answer
does so too. -/
theorem within_any (d : Nat) :
    (∀ n, Loading h₀ False n (loadWithin d) (loadWithin d)) ∧
      ∀ n, Answering h₀ False n (answerWithin d) (answerWithin d) := by
  induction d with
  | zero =>
    refine ⟨fun n p h _ _ hs _ => ⟨rfl, ends_loadWithin_zero hs⟩, fun n q h hq hs hn => ⟨rfl, ?_⟩⟩
    rw [answerWithin]
    exact ⟨.refl hs, .thrown (.inr rfl)⟩
  | succ d ih =>
    refine ⟨fun n => ?_, fun n => ?_⟩
    · cases n with
      | zero => exact loading_zero hplot (d + 1) (d + 1)
      | succ n => exact loading_succ hplot (ih.2 n)
    · rw [answerWithin_succ]
      exact answering_answerWith hplot (ih.1 n)

/-- Whatever the depth, a load nests handlers no deeper than there are files left, and one deeper
if it is not a file that is loaded. -/
theorem ends_any (hp : p.Canonical) (hs : h₀.Stems h) (d : Nat) :
    Ends h₀ False none h (h₀.pending h + if h₀.workspace.world.tree.isFile p then 0 else 1) Loaded
      (loadWithin d homeRealm p h) := by
  split
  · next hfile => exact ((within_any hplot d).1 _ p h hp hfile hs (Nat.le_refl _)).2
  · cases d with
    | zero => exact ends_loadWithin_zero hs
    | succ d =>
      exact (ends_loadWithin hplot ((within_any hplot d).2 _) hp hs
        fun m => Host.pending_mono fun _ => Host.isSome_insert).2

end Plotted

end Recorded

end Descent

end LoadHook
