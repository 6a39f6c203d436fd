import LoadHook.Proofs.Hook.Account

/-!
# The balance of a hook

What a hook remembers it has compiled, and so it remembers at most as many sources as it has counted
compilations. With the counters that agree with the journal this is the balance of a hook, which
every session keeps to at each of its moments.
-/
namespace LoadHook

open Script (Value RealmRef Ref)

variable {number : Nat} {x : Moment} {h h₁ g : Host} {j k past : Journal} {d : Dispatch} {o : Path}

/-! ## What is remembered -/

/-- Each source that a hook remembers has an entry of its own, and has been compiled. -/
structure OutputCache.Backed (c : OutputCache) (number : Nat) (past : Journal) : Prop where
  apart : c.Apart
  compiled : ∀ e ∈ c.entries, ∃ x ∈ past, ∃ p, x.Meets number p .compiled ∧ p.same e.1

namespace OutputCache.Backed

variable {c : OutputCache}

theorem mono (hc : c.Backed number past) (hsub : past ⊆ j) : c.Backed number j where
  apart := hc.apart
  compiled e he := by
    obtain ⟨x, hx, hp⟩ := hc.compiled e he
    exact ⟨x, hsub hx, hp⟩

/-- A source that has been compiled is remembered. -/
theorem insert (hc : c.Backed number past) {s : Path}
    (hs : ∃ x ∈ past, ∃ p, x.Meets number p .compiled ∧ p.same s) :
    OutputCache.Backed (PathMap.insert c s o) number past where
  apart := hc.apart.insert s o
  compiled e he := by
    rcases PathMap.key_of_mem_put he with hkey | ⟨f, hf, hkey⟩
    · rw [hkey]
      exact hs
    · rw [← hkey]
      exact hc.compiled f hf

/-- The remembered sources are as many as the dispatches that have compiled them, or fewer. -/
theorem size_le (hc : c.Backed number past) : c.size ≤ past.tally number .compiled := by
  classical
  let compiled := past.filter fun x => ∃ p, x.Meets number p .compiled
  let sources := (Journal.dispatches compiled).map fun e => e.1.components
  let known := c.entries.map fun e => e.1.components
  have hnodup : known.Nodup := by
    refine List.pairwise_map.mpr (hc.apart.imp fun {e f} hef heq => ?_)
    rw [Path.same_iff.mpr heq] at hef
    cases hef
  have hsub : known ⊆ sources := by
    intro q hq
    obtain ⟨e, he, rfl⟩ := List.mem_map.mp hq
    obtain ⟨x, hx, p, hmeets, hs⟩ := hc.compiled e he
    have hmem : x ∈ compiled := List.mem_filter.mpr ⟨hx, decide_eq_true ⟨p, hmeets⟩⟩
    obtain ⟨m, -, hwhat, -⟩ := hmeets
    refine List.mem_map.mpr ⟨(p, m), ?_, Path.same_iff.mp hs⟩
    exact List.mem_filterMap.mpr ⟨x, hmem, by rw [hwhat]⟩
  calc c.size = known.length := (List.length_map _).symm
    _ ≤ sources.length := (hnodup.subperm hsub).length_le
    _ = (Journal.dispatches compiled).length := List.length_map _
    _ ≤ compiled.length := List.length_filterMap_le _ _
    _ = past.tally number .compiled := List.countP_eq_length_filter.symm

end OutputCache.Backed

/-- What the hook of a number remembers in a host is backed by a past. -/
def Host.Backed (h : Host) (number : Nat) (past : Journal) : Prop :=
  ∀ c, h.workspace.cache? number = some c → OutputCache.Backed c number past

theorem Host.Backed.congr (hh : h.Backed number past)
    (hc : h₁.workspace.cache? number = h.workspace.cache? number) : h₁.Backed number past :=
  fun c hc' => hh c (hc ▸ hc')

theorem Host.Backed.mono (hh : h.Backed number past) (hsub : past ⊆ j) : h.Backed number j :=
  fun c hc => (hh c hc).mono hsub

/-- The source of an output that is run has been compiled, now or before. -/
theorem Dispatch.Executes.compiled (hx : d.Executes number o)
    (hh : d.before.Backed number past) :
    ∃ x ∈ past ++ [d.opening], ∃ p, x.Meets number p .compiled ∧ p.same d.path := by
  obtain ⟨hd, c, k', w', _, hc, hchoose, -⟩ := hx
  have hopening := meets_opening hd hc
  cases hf : c.fate d.path d.before.workspace.world with
  | compiled =>
    exact ⟨d.opening, by simp, d.path, hf ▸ hopening, Path.same_refl d.path⟩
  | reused =>
    -- what is reused is remembered, and so it has been compiled before
    obtain ⟨q, hq⟩ := Hook.known_of_reused hf
    obtain ⟨e, he, hs, -⟩ := PathMap.mem_of_get?_eq_some hq
    obtain ⟨x, hx, p, hmeets, hp⟩ := (hh c.cache (Workspace.cache?_of_at? hc)).compiled e he
    exact ⟨x, List.mem_append_left _ hx, p, hmeets, Path.same_trans hp hs⟩
  | aborted | refused =>
    have hexecutes := Hook.executes_of_choose hchoose
    rw [hf] at hexecutes
    cases hexecutes

/-- That what a hook remembers is backed is carried along. -/
theorem carried_backed (number : Nat) :
    Carried number (fun past h => h.Backed number past)
      fun past x => x.host.Backed number past where
  congr := Host.Backed.congr
  moment := Host.Backed.congr
  after hx := hx.mono (List.subset_append_left _ _)
  stored hbefore _ hg hx _ hc hd := by
    intro c hc'
    cases hc'.symm.trans hd
    obtain ⟨x, hmem, hp⟩ := hx.compiled hbefore
    refine (hg _ hc).insert ⟨x, ?_, hp⟩
    rw [List.append_cons]
    exact List.mem_append_left _ hmem

/-! ## Sessions -/

/-- The balance of a hook after a past: each counter is the number of dispatches with the fate that
it counts. Together they count the dispatches that were not refused, and without the aborted ones
those that have run an output. The hook remembers at most as many sources as it has compiled. -/
structure Hook.Balanced (c : Hook) (number : Nat) (past : Journal) : Prop where
  compilations : c.stats.compilations = past.tally number .compiled
  cacheHits : c.stats.cacheHits = past.tally number .reused
  aborted : c.stats.aborted = past.tally number .aborted
  accepted : c.stats.compilations + c.stats.cacheHits + c.stats.aborted = past.accepted number
  executed : c.stats.compilations + c.stats.cacheHits = past.executed number
  known : c.cache.size ≤ c.stats.compilations

/-- No counter is less than another time. -/
structure HookStats.Le (s t : HookStats) : Prop where
  compilations : s.compilations ≤ t.compilations
  cacheHits : s.cacheHits ≤ t.cacheHits
  aborted : s.aborted ≤ t.aborted

/-- The hook of a number keeps its balance along a journal that ends in a host.

It does so at every moment and at the end, and no counter decreases from a moment to a later one or
to the end. Each dispatch of its handler comes to what becomes of the source. -/
structure Balance (number : Nat) (j : Journal) (h : Host) : Prop where
  moments : ∀ a x b, j = a ++ x :: b →
    ∃ c, Hook.at? x.host.workspace number = some c ∧ c.Balanced number a
  last : ∃ c, Hook.at? h.workspace number = some c ∧ c.Balanced number j
  grows : ∀ a x b c c', j = a ++ x :: b → Hook.at? x.host.workspace number = some c →
    (Hook.at? h.workspace number = some c' ∨
      ∃ y ∈ b, Hook.at? y.host.workspace number = some c') → c.stats.Le c'.stats
  dispatches : ∀ a x b, j = a ++ x :: b → Settles number x b

/-- A hook whose counters agree with the journal, and which remembers what it has compiled. -/
theorem Host.Tallied.balanced (hh : h.Tallied number past) (hb : h.Backed number past)
    (hserves : ∀ x ∈ past, x.Serves number → ∃ p f, x.Meets number p f) :
    ∃ c, Hook.at? h.workspace number = some c ∧ c.Balanced number past := by
  obtain ⟨c, hc, hstats⟩ := hh.exists_hook
  refine ⟨c, hc, ?_⟩
  have hsize := (hb c.cache (Workspace.cache?_of_at? hc)).size_le
  constructor <;> rw [hstats, Journal.counted]
  · exact (Journal.accepted_eq hserves).symm
  · exact (Journal.executed_eq number past).symm
  · exact hsize

/-- The counters of a hook that is in balance do not decrease. -/
theorem Hook.Balanced.le {c c' : Hook} (hc : c.Balanced number j)
    (hc' : c'.Balanced number (j ++ k)) : c.stats.Le c'.stats where
  compilations := by
    rw [hc.compilations, hc'.compilations]
    exact Journal.tally_le_append .compiled j k
  cacheHits := by
    rw [hc.cacheHits, hc'.cacheHits]
    exact Journal.tally_le_append .reused j k
  aborted := by
    rw [hc.aborted, hc'.aborted]
    exact Journal.tally_le_append .aborted j k

/-- Each dispatch of the handler comes to something. -/
theorem Tallies.meets (hj : Tallies number past j h) :
    ∀ x ∈ j, x.Serves number → ∃ p f, x.Meets number p f := by
  rintro x hx ⟨p, m, hp, hs⟩
  obtain ⟨a, b, he⟩ := List.mem_iff_append.mp hx
  obtain ⟨-, f, -, -, -, -, hmeets, -⟩ := hj.dispatches a x b he p m hp hs
  exact ⟨p, f, hmeets⟩

/-- Where a hook is in balance throughout, no counter decreases. -/
theorem Balance.of_balanced
    (hmoments : ∀ a x b, j = a ++ x :: b →
      ∃ c, Hook.at? x.host.workspace number = some c ∧ c.Balanced number a)
    (hlast : ∃ c, Hook.at? h.workspace number = some c ∧ c.Balanced number j)
    (hdispatches : ∀ a x b, j = a ++ x :: b → Settles number x b) : Balance number j h := by
  refine ⟨hmoments, hlast, fun a x b c c' he hc hc' => ?_, hdispatches⟩
  obtain ⟨c₁, hc₁, hbefore⟩ := hmoments a x b he
  cases hc.symm.trans hc₁
  rcases hc' with hc' | ⟨y, hy, hc'⟩
  · obtain ⟨c₂, hc₂, hafter⟩ := hlast
    cases hc'.symm.trans hc₂
    exact hbefore.le (k := x :: b) (he ▸ hafter)
  · obtain ⟨b₁, b₂, rfl⟩ := List.mem_iff_append.mp hy
    obtain ⟨c₂, hc₂, hafter⟩ := hmoments (a ++ x :: b₁) y b₂ (by rw [he]; simp)
    cases hc'.symm.trans hc₂
    exact hbefore.le (k := x :: b₁) hafter

/-- A session with proper handlers keeps to the counters of the hook. -/
theorem Session.tallies (ops : Session) {h : Host} (hh : h.Tallied number [])
    (hreg : ∀ e f, .register e f ∈ ops → Hook.Proper number f) (hplain : (ops.journal h).Plain) :
    Tallies number [] (ops.journal h) (ops.run h) := by
  have hregister (e : String) (f : Handler) (hf : .register e f ∈ ops) (h : Host) :
      Tallying number h [] (h.register e f) := fun past hh _ =>
    .nil ⟨hh.stats, Registry.forall_mem_register hh.handlers e (hreg e f hf)⟩
  exact (runLaw_tallying number).session ops h hregister [] hh hplain

/-- In every session that begins with a new hook, the hook keeps its balance, if the handlers are
proper and the names of a module mean nothing special. -/
theorem Session.balance (ops : Session) {h : Host} {settings : Settings} {toolchain : Toolchain}
    (hc : Hook.at? h.workspace number = some (.new settings toolchain))
    (hhandlers : ∀ e f, (e, f) ∈ h.registry.handlers → Hook.Proper number f)
    (hreg : ∀ e f, .register e f ∈ ops → Hook.Proper number f)
    (hplain : (ops.journal h).Plain) : Balance number (ops.journal h) (ops.run h) := by
  have hcache : h.workspace.cache? number = some .empty := Workspace.cache?_of_at? hc
  have hready : h.Ready number := ⟨by rw [hcache]; rfl, hhandlers⟩
  have hstart : h.Tallied number [] := ⟨Workspace.stats?_of_at? hc, hhandlers⟩
  have hbacked : h.Backed number [] := by
    intro c hc'
    cases hc'.symm.trans hcache
    exact ⟨List.Pairwise.nil, by simp [PathMap.empty]⟩
  have htallies := ops.tallies hstart hreg hplain
  obtain ⟨hmoments, hlast⟩ :=
    (ops.conserves hready hreg hplain).carries (carried_backed number) hbacked
  have hmeets := htallies.meets
  refine .of_balanced (fun a x b he => ?_) (htallies.last.balanced hlast hmeets) htallies.dispatches
  refine (Journal.every_iff.mp htallies.moments a x b he).balanced
    (Journal.every_iff.mp hmoments a x b he) fun y hy => hmeets y ?_
  rw [he]
  exact List.mem_append_left _ hy

/-- A new hook compiles sources, takes them from the cache and cannot compile them, while they ask
for each other. -/
theorem Session.balance_rebuilding : (rebuilding.journal workshop).Plain ∧
    Balance 0 (rebuilding.journal workshop) (rebuilding.run workshop) := by
  have hk : Hook.at? workshop.workspace 0 = some (.new .standard bundler) := rfl
  refine ⟨plain_rebuilding, balance rebuilding hk (fun e f hf => ?_) (fun e f hf => ?_)
    plain_rebuilding⟩
  · rw [handlers_workshop hf]
    exact Hook.proper_handler 0
  · simp [rebuilding] at hf

end LoadHook
