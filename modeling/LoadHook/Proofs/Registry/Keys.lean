import LoadHook.Proofs.Registry.Registration
import LoadHook.Proofs.Registry.Visits

/-!
# The keys of the registry

A path from outside is made normal before it is loaded, and a straight specifier leads from a
canonical directory to a canonical path. So as long as modules ask from their own directories by
straight specifiers, all modules are registered under canonical paths, and each of them is found
and forgotten by its normal path.
-/
namespace LoadHook

open Script (RealmRef Ref)
open Journal (Every)
open Resolution (Straight Unbroken)

variable {past j k : Journal} {x : Moment} {g g' : Registry} {p q : Path} {h h₁ : Host}

/-- All modules are registered under canonical paths, no path has two of them, and no registered
extension leads into a directory. -/
structure Registry.Keyed (g : Registry) : Prop where
  canonical : ∀ e ∈ g.modules.entries, e.1.Canonical
  apart : g.modules.Apart
  unbroken : Unbroken g.extensions

namespace Registry.Keyed

variable {m : Ref}

theorem initial : Registry.initial.Keyed where
  canonical := nofun
  apart := List.Pairwise.nil
  unbroken := by
    have : ∀ e ∈ ["js", "json"], '/' ∉ e.toList := by decide
    exact this

theorem congr (hg : g.Keyed) (hh : g'.handlers = g.handlers) (hm : g'.modules = g.modules) :
    g'.Keyed where
  canonical := by rw [hm]; exact hg.canonical
  apart := by rw [hm]; exact hg.apart
  unbroken := by rw [Registry.extensions, hh]; exact hg.unbroken

theorem insert (hg : g.Keyed) (hp : p.Canonical) : (g.insert p m).Keyed where
  canonical e he := by
    rcases PathMap.key_of_mem_put he with hk | ⟨f, hf, hk⟩
    · rw [hk]
      exact hp
    · rw [← hk]
      exact hg.canonical f hf
  apart := hg.apart.insert p m
  unbroken := hg.unbroken

theorem erase (hg : g.Keyed) (p : Path) : (g.erase p).Keyed where
  canonical e he := hg.canonical e (List.mem_filter.mp he).1
  apart := hg.apart.erase p
  unbroken := hg.unbroken

theorem clear (hg : g.Keyed) : g.clear.Keyed where
  canonical := nofun
  apart := List.Pairwise.nil
  unbroken := hg.unbroken

end Registry.Keyed

theorem Registry.unbroken_register {e : String} (hg : Unbroken g.extensions)
    (he : '/' ∉ e.toList) (f : Handler) : Unbroken (g.register e f).extensions := by
  intro d hd
  obtain ⟨c, hc, rfl⟩ := List.mem_map.mp hd
  rcases mem_putHandler hc with rfl | hc
  · rw [bareExtension, String.toList_ofList]
    exact fun hs => he ((List.dropWhile_sublist _).subset hs)
  · exact hg c.1 (List.mem_map_of_mem hc)

theorem Registry.Keyed.register {e : String} (hg : g.Keyed) (he : '/' ∉ e.toList) (f : Handler) :
    (g.register e f).Keyed where
  canonical := hg.canonical
  apart := hg.apart
  unbroken := unbroken_register hg.unbroken he f

/-! ## What is asked for -/

/-- What is known of the paths in a journal. -/
structure Known (past : Journal) : Prop where
  called : ∀ p, Begun p past → p.Canonical
  asked : ∀ x ∈ past, ∀ part q, x.what = .asked part q →
    Straight q.specifier ∧ q.dir.Canonical

/-- What is asked for straight from a canonical directory is found at a canonical path. -/
theorem Host.canonical_resolve {specifier : String} (hg : h.registry.Keyed) (hq : q.Canonical)
    (hs : Straight specifier) (hp : h.resolve specifier q = .ok p) : p.Canonical := by
  unfold Host.resolve at hp
  split at hp
  · next hr =>
    cases hp
    exact Resolution.canonical_resolve hg.unbroken hq hs hr
  · cases hp

theorem begun_concat :
    Begun p (past ++ [x]) ↔ Begun p past ∨ ∃ realm, x.what = .called realm p := by
  simp only [Begun, List.mem_append, List.mem_singleton, or_and_right, exists_or, exists_eq_left]

/-- A step keeps the keys of the registry canonical. -/
theorem Step.keyed (hx : Step past g x) (hk : Known past) (hg : g.Keyed) :
    x.host.registry.Keyed := by
  obtain ⟨what, h⟩ := x
  have hreplay : ∀ {g₁ : Registry}, g₁.Keyed → g₁.handlers = g.handlers →
      Moment.replay g.modules ⟨what, h⟩ = g₁.modules → h.registry.Keyed :=
    fun hg₁ hh hm => hg₁.congr (hx.handlers.trans hh.symm) (hx.modules.trans hm)
  cases what with
  | dispatched p m => exact hreplay (hg.insert (hk.called p (hx.dispatched p m rfl))) rfl rfl
  | dropped p | evicted p => exact hreplay (hg.erase p) rfl rfl
  | cleared => exact hreplay hg.clear rfl rfl
  | _ => exact hreplay hg rfl rfl

/-- What is called and asked for at a step is known then. -/
theorem Step.known (hx : Step past g x) (hk : Known past) (hg : g.Keyed) (ha : Aims past x) :
    Known (past ++ [x]) where
  called p hp := by
    rcases begun_concat.mp hp with hp | ⟨realm, hcalled⟩
    · exact hk.called p hp
    · cases hx.called realm p hcalled with
      | entered hp => exact Host.canonical_absolute hp
      | required hq hp =>
        obtain ⟨hs, hdir⟩ := hk.asked _ hq _ _ rfl
        exact Host.canonical_resolve (hx.keyed hk hg) hdir hs hp
  asked y hy part q hq := by
    rcases List.mem_append.mp hy with hy | hy
    · exact hk.asked y hy part q hq
    · rw [List.mem_singleton.mp hy] at hq
      obtain ⟨hs, p, hp, hparent⟩ := ha part q hq
      exact ⟨hs, (hk.called p hp).parent hparent⟩

/-- A chain of steps keeps the keys of the registry canonical. -/
theorem Chain.keyed (hj : Chain past g j g') (ha : Every Aims past j) (hk : Known past)
    (hg : g.Keyed) :
    (∀ x ∈ j, x.host.registry.Keyed) ∧ g'.Keyed ∧ Known (past ++ j) := by
  -- the past of a moment and the registry before it change together along the chain
  induction j generalizing past g with
  | nil =>
    have he : g' = g := hj
    exact ⟨by simp, he ▸ hg, by simpa using hk⟩
  | cons x j ih =>
    obtain ⟨hx, hj⟩ := hj
    have hkeyed := hx.keyed hk hg
    obtain ⟨hrest, hlast, hknown⟩ := ih hj ha.2 (hx.known hk hg ha.1) hkeyed
    refine ⟨fun y hy => ?_, hlast, by simpa using hknown⟩
    rcases List.mem_cons.mp hy with rfl | hy
    · exact hkeyed
    · exact hrest y hy

/-! ## What is not called -/

/-- A step registers only what has been called. -/
theorem Step.missing (hx : Step past g x) (hg : g.modules.get? p = none)
    (hpast : ∀ y ∈ past, y.calls p = false) : x.host.registry.modules.get? p = none := by
  rw [hx.modules]
  obtain ⟨what, h⟩ := x
  cases what with
  | dispatched q m =>
    obtain ⟨y, hy, realm, hcalled⟩ := hx.dispatched q m rfl
    have hs : q.same p = false := by simpa [Moment.calls, hcalled] using hpast y hy
    exact (PathMap.get?_insert_of_not_same hs).trans hg
  | dropped q | evicted q => exact PathMap.get?_erase_of_none hg
  | cleared => rfl
  | _ => exact hg

/-- As long as a path has not been called it is not registered. -/
def Missing (p : Path) (past : Journal) (x : Moment) : Prop :=
  (∀ y ∈ past, y.calls p = false) → x.host.registry.modules.get? p = none

/-- What is not registered and not called stays so along a chain of steps. -/
theorem Chain.missing (hj : Chain past g j g')
    (hg : (∀ x ∈ past, x.calls p = false) → g.modules.get? p = none) :
    Every (Missing p) past j ∧
      ((∀ x ∈ past ++ j, x.calls p = false) → g'.modules.get? p = none) := by
  induction j generalizing past g with
  | nil =>
    have he : g' = g := hj
    exact ⟨trivial, fun hpast => he ▸ hg (by simpa using hpast)⟩
  | cons x j ih =>
    obtain ⟨hx, hj⟩ := hj
    have hmissing : Missing p past x := fun hpast => hx.missing (hg hpast) hpast
    obtain ⟨hrest, hlast⟩ := ih hj fun hpast =>
      hmissing fun y hy => hpast y (List.mem_append_left _ hy)
    exact ⟨⟨hmissing, hrest⟩, by simpa using hlast⟩

/-! ## Sessions -/

/-- A host whose modules are all found by their normal paths.

Every key of the registry is absolute and its own normal form, and no two keys have one normal
form. A module that is registered can be evicted, and whatever is done with the host then, the next
load of its path makes a new object and dispatches the handler again, unless loads are nested too
deep for it. -/
structure Host.Addressed (h : Host) : Prop where
  normal : ∀ e ∈ h.registry.modules.entries, e.1.isAbsolute ∧ e.1.normalize.same e.1
  distinct : h.registry.modules.entries.Pairwise fun e f =>
    e.1.normalize.same f.1.normalize = false
  evicts : ∀ p, h.registry.isLoaded p → (h.evict p).1 = true
  reloads : ∀ p, h.registry.isLoaded p → ∀ (ops : Session) a x b realm q,
    ops.journal (h.evict p).2 = a ++ x :: b → (∀ y ∈ a, y.calls p = false) →
    x.what = .called realm q → p.same q → Quiet realm x.host b →
    Refuses q x.host b ∨ Dispatches q x.host b

namespace Session

theorem missing (ops : Session) {h : Host}
    (hg : (∀ x ∈ past, x.calls p = false) → h.registry.modules.get? p = none) :
    Every (Missing p) past (ops.journal h) := by
  induction ops generalizing h past with
  | nil => trivial
  | cons o rest ih =>
    rw [journal, Journal.every_append]
    rcases (o.conducted h).chain with ⟨e, f, rfl, hj, -⟩ | hchain
    · rw [hj, List.append_nil]
      exact ⟨trivial, ih hg⟩
    · obtain ⟨hall, hlast⟩ := (hchain past).missing hg
      exact ⟨hall, ih hlast⟩

theorem keyed (ops : Session) {h : Host} (hext : ∀ e f, .register e f ∈ ops → '/' ∉ e.toList)
    (ha : Every Aims past (ops.journal h)) (hk : Known past) (hg : h.registry.Keyed) :
    (∀ x ∈ ops.journal h, x.host.registry.Keyed) ∧ (ops.run h).registry.Keyed := by
  induction ops generalizing h past with
  | nil => exact ⟨by simp [journal], hg⟩
  | cons o rest ih =>
    have hrest : ∀ e f, .register e f ∈ rest → '/' ∉ e.toList :=
      fun e f he => hext e f (List.mem_cons_of_mem o he)
    rw [journal, Journal.every_append] at ha
    rcases (o.conducted h).chain with ⟨e, f, rfl, hj, hh⟩ | hchain
    · have hg₁ : (h.register e f).registry.Keyed := hg.register (hext e f List.mem_cons_self) f
      rw [hj, List.append_nil] at ha
      rw [journal, run, hj, List.nil_append]
      exact ih hrest ha.2 hk (hh ▸ hg₁)
    · obtain ⟨hall, hlast, hknown⟩ := (hchain past).keyed ha.1 hk hg
      obtain ⟨hall', hlast'⟩ := ih hrest ha.2 hknown hlast
      refine ⟨fun x hx => ?_, hlast'⟩
      rcases List.mem_append.mp hx with hx | hx
      · exact hall x hx
      · exact hall' x hx

end Session

/-- What is registered under canonical paths is found by the normal path of each spelling. -/
theorem Host.evict_of_keyed (hg : h.registry.Keyed) (hp : h.registry.isLoaded p) :
    h.evict p = (true, h.withoutModule p.normalize) ∧ p.normalize.same p := by
  obtain ⟨m, hm⟩ := Option.isSome_iff_exists.mp hp
  obtain ⟨e, he, hs, -⟩ := PathMap.mem_of_get?_eq_some hm
  have hcanonical : p.Canonical := (hg.canonical e he).congr hs
  have hsame := hcanonical.same_normalize
  have habs : Host.absolute h.workspace.world.tree p = .ok p.normalize := by
    have hchars := Path.chars_of_absolute hcanonical.absolute
    simp [Host.absolute, hchars, hcanonical.absolute]
  have hloaded : h.registry.isLoaded p.normalize = true := by
    rw [Registry.isLoaded, PathMap.contains, PathMap.get?_congr hsame, hm]
    rfl
  simp only [Host.evict, habs, hloaded, hsame, and_true]
  rfl

/-- A host whose modules are registered under canonical paths is addressed by normal paths. -/
theorem Host.addressed_of_keyed (hg : h.registry.Keyed) : h.Addressed where
  normal e he := Path.canonical_iff_normal.mp (hg.canonical e he)
  distinct := by
    refine hg.apart.imp_of_mem fun {e f} he hf hs => Bool.eq_false_iff.mpr fun hn => ?_
    have he := (hg.canonical e he).same_normalize
    have hf := (hg.canonical f hf).same_normalize
    rw [Path.same_trans (Path.same_symm he) (Path.same_trans hn hf)] at hs
    cases hs
  evicts p hp := by rw [(Host.evict_of_keyed hg hp).1]
  reloads p hp ops a x b realm q hj ha hx hs hq := by
    obtain ⟨hevict, hsame⟩ := Host.evict_of_keyed hg hp
    rw [hevict] at hj
    have hnone : (h.withoutModule p.normalize).registry.modules.get? p = none :=
      PathMap.get?_erase_of_same hsame
    have hmissing : Every (Missing p) [] (ops.journal (h.withoutModule p.normalize)) :=
      ops.missing fun _ => hnone
    have hopens := ops.opens (h.withoutModule p.normalize)
    rw [hj] at hmissing hopens
    have hnone' : x.host.registry.modules.get? q = none := by
      rw [← PathMap.get?_congr hs]
      exact (Journal.every_append.mp hmissing).2.1 (by simpa using ha)
    exact (hopens.follows realm q hx).2 hnone' hq

namespace Session

/-- As long as modules ask from their own directories by straight specifiers, all modules are
addressed by their normal paths, at every moment of a session and after it. -/
theorem addressed (w : World) (ops : Session)
    (hext : ∀ e f, .register e f ∈ ops → '/' ∉ e.toList)
    (ha : ∀ a x b, ops.journal (.start w) = a ++ x :: b → Aims a x) :
    (∀ x ∈ ops.journal (.start w), x.host.Addressed) ∧ (ops.run (.start w)).Addressed := by
  have hstart : Known [] := ⟨fun p ⟨_, hx, _⟩ => by simp at hx, by simp⟩
  have haims : Every Aims [] (ops.journal (.start w)) := Journal.every_iff.mpr ha
  obtain ⟨hall, hlast⟩ := ops.keyed hext haims hstart Registry.Keyed.initial
  exact ⟨fun x hx => Host.addressed_of_keyed (hall x hx), Host.addressed_of_keyed hlast⟩

/-- All modules of a tangle are addressed by their normal paths. -/
theorem addressed_tangle :
    (∀ x ∈ (steppedOnly ++ rounds).journal (.start tangle), x.host.Addressed) ∧
      ((steppedOnly ++ rounds).run (.start tangle)).Addressed := by
  have hext : ∀ e f, .register e f ∈ steppedOnly ++ rounds → '/' ∉ e.toList := by
    simp [steppedOnly, rounds]
  exact addressed tangle (steppedOnly ++ rounds) hext visited_tangle.aimed

end Session
end LoadHook
