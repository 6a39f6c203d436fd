import LoadHook.Proofs.Hook.Alarm
import LoadHook.Proofs.Hook.Provenance
import LoadHook.Proofs.Journal.Law
import LoadHook.Proofs.Journal.Unfolding
import LoadHook.Proofs.Module.Making
import LoadHook.Proofs.Registry.Memo

/-!
# Failed compilations are contained

A hook that cannot compile a source leaves the module as it was made: the load succeeds, nothing is
asked for and nothing is run, and the exports are an empty object. `Hook.Contained` says what has
changed then, `Session.containment` that it is so in every session, and that the module is given
back with this object from then on until it is removed.
-/
namespace LoadHook

open Script (Value RealmRef Ref)

variable {number : Nat} {realm : RealmRef} {p q : Path} {m : Ref} {k : Hook} {e : CompileError}
  {h h₁ : Host} {w w' : Workspace}

/-! ## A single load -/

namespace Hook

/-- A hook when an attempt to compile a source has failed. -/
def whenAborted (k : Hook) (s : Path) (w : World) : Hook :=
  { k with
    runs := (k.attempt s w).runs
    stats := { k.stats with aborted := k.stats.aborted + 1 } }

/-- The hook that serves a path cannot compile it: it has no fresh output for it, and its attempt
to compile it fails. -/
structure Aborts (number : Nat) (p : Path) (k : Hook) (e : CompileError) (h : Host) : Prop where
  serves : h.registry.handlerFor p = handler number
  hook : at? h.workspace number = some k
  decides : Decides k h.workspace.world.tree p .compile
  failed : (k.attempt p h.workspace.world).result = .error e

/-- What a load of a module comes to whose source cannot be compiled.

The module is registered and marked as loaded, and its exports are a new object without properties.
The hook has counted that it was aborted, and nothing else but the attempts of its toolchain; it
remembers what it did before, and the other hooks are as they were. The world is the one that the
attempt has left, where the failure is reported. If the configuration is at fault the toolchain has
not run, and no file has changed. -/
structure Contained (number : Nat) (realm : RealmRef) (p : Path) (k : Hook) (e : CompileError)
    (h : Host) (m : Ref) (h' : Host) : Prop where
  registered : h'.registry = h.registry.insert p m
  old : h.workspace.heap.Extends h'.workspace.heap
  marked : h'.workspace.heap.Marked m true
  exports : h'.workspace.heap.own m exportsKey = some (.plain (.obj (m + 1)))
  empty : h'.workspace.heap.object (m + 1) = h.workspace.heap.blank realm
  hook : at? h'.workspace number = some (k.whenAborted p h.workspace.world)
  others : ∀ n, n ≠ number → at? h'.workspace n = at? h.workspace n
  world : h'.workspace.world =
    (k.attempt p h.workspace.world).world.report .error .hook e.message
  reported : k.toolchain.Calm →
    h'.workspace.world.errors = h.workspace.world.errors ++ [⟨.error, .hook, e.message⟩]
  unread : k.toolchain.Own → e.ofConfig = true →
    (k.whenAborted p h.workspace.world).runs = k.runs ∧
      h'.workspace.world.tree = h.workspace.world.tree

/-- The moments between the call of a load and its return if nothing is asked for: the object of the
module is made, its handler runs in one stretch, and it is marked as loaded. -/
def quietly (p : Path) (m : Ref) (h h₁ h₂ h₃ : Host) : Journal :=
  [⟨.ran .making h, ⟨h.registry, h₁.workspace⟩⟩, ⟨.dispatched p m, h₁⟩, ⟨.ran .code h₁, h₂⟩,
    ⟨.ran .marking h₂, h₃⟩, ⟨.completed p m, h₃⟩]

/-- The handler of a hook that cannot compile the source runs nothing. -/
theorem handler_of_aborts (ha : Aborts number p k e h) (hw : Furnished realm p h.workspace m w) :
    handler number realm m w = .done (.ok (), put
      { w with world := (k.attempt p h.workspace.world).world.report .error .hook e.message }
      number (k.whenAborted p h.workspace.world)) := by
  have hhook : at? w number = some k := (hw.at? number).trans ha.hook
  have hchoose : k.choose p w.world = .ok (.skip, k.whenAborted p h.workspace.world,
      (k.attempt p h.workspace.world).world.report .error .hook e.message) := by
    rw [hw.world]
    exact (choose_eq ha.decides).trans (congrArg _ (compile_of_error ha.failed))
  rw [handler_eq, Load.bind_of_done (filename_of_holds_path hw.filename)]
  exact serve_of_skip hhook hchoose

/-- Where the names of a module mean nothing special, the load of a module whose source cannot be
compiled succeeds without asking for anything. -/
theorem loadNew_of_aborts (f : Recorded.Answerer) (ha : Aborts number p k e h)
    (hplain : h.workspace.heap.PlainFor realm) :
    ∃ m h₁ h₂ h₃, Recorded.loadNew f realm p h = ⟨.ok m, h₃, quietly p m h h₁ h₂ h₃⟩ ∧
      Contained number realm p k e h m h₃ := by
  obtain ⟨m, w₁, hmade, hw⟩ := newModule_furnished p hplain
  have hrun := handler_of_aborts ha hw
  generalize hv : put { w₁ with
    world := (k.attempt p h.workspace.world).world.report .error .hook e.message } number
    (k.whenAborted p h.workspace.world) = w₂ at hrun
  have hheap : w₂.heap = w₁.heap := by rw [← hv]; rfl
  have hworld : w₂.world = (k.attempt p h.workspace.world).world.report .error .hook e.message := by
    rw [← hv]; rfl
  have hload := Recorded.loadNew_of_done (f := f) hmade
    (by rw [ha.serves]; exact hrun) (hheap ▸ hw.unmarked)
  refine ⟨m, ⟨h.registry.insert p m, w₁⟩, ⟨h.registry.insert p m, w₂⟩, _, hload, rfl, ?old,
    ?marked, ?exports, ?empty, ?hook, ?others, hworld, fun hcalm => ?reported,
    fun hown hconfig => ?unread⟩
  case old =>
    simp only [hheap]
    refine hw.old.putOwn ?_
    rw [hw.fresh]
    exact Nat.le_succ _
  case marked =>
    simp only [hheap]
    exact Script.Heap.marked_mark hw.unmarked
  case exports =>
    simp only [hheap, Script.Heap.mark, Script.Heap.own]
    rw [Script.Heap.object_putOwn_self (Script.Heap.Marked.lt_size hw.unmarked),
      Script.Object.own_put_of_ne (by decide)]
    exact hw.exports
  case empty =>
    simp only [hheap]
    rw [Script.Heap.mark, Script.Heap.object_putOwn_of_ne (Nat.succ_ne_self m)]
    exact hw.empty
  case hook =>
    have hhook : at? w₁ number = some k := (hw.at? number).trans ha.hook
    rw [← hv]
    exact at?_put (v := { w₁ with world := _ }) hhook _
  case others =>
    intro n hn
    rw [← hv]
    exact (at?_put_of_ne (v := { w₁ with world := _ }) hn.symm _).trans (hw.at? n)
  case reported =>
    rw [hworld, World.errors_report_error, errors_attempt hcalm]
  case unread =>
    obtain ⟨hruns, htree⟩ := attempt_of_ofConfig hown ha.failed hconfig
    refine ⟨hruns, ?_⟩
    rw [hworld, World.tree_report, htree]

end Hook

/-! ## Sessions -/

/-- What comes after a registered module is asked for: its exports are the answer, and nothing has
changed when it is given, unless loads are nested too deep for any answer. -/
def Obtains (r : Requirement) (v : Value) (h : Host) (rest : Journal) : Prop :=
  ∃ n, (Recorded.answerWithin n r h).journal <+: rest ∧
    (n = 0 ∨ (Recorded.answerWithin n r h).result = .ok v ∧
      (Recorded.answerWithin n r h).host = h)

open Recorded in
theorem obtains_of_registered {x : Moment} {rest : Journal} {part : Part} {r : Requirement}
    {v : Value} (hx : Unfolds x rest) (hr : x.what = .asked part r)
    (hq : x.host.resolve r.specifier r.dir = .ok q)
    (hm : x.host.registry.modules.get? q = some m)
    (hv : x.host.workspace.heap.own m exportsKey = some (.plain v)) :
    Obtains r v x.host rest := by
  obtain ⟨n, hn⟩ := hx.asked part r hr
  refine ⟨n, hn, ?_⟩
  cases n with
  | zero => exact .inl rfl
  | succ n =>
    have hserved := served_answerWith (f := answerWithin n) (plays_within n).1 r x.host
    refine .inr ?_
    rw [answerWithin]
    exact hserved q m v true true true hq hm hv

/-- What follows the call of a module whose source cannot be compiled: the load succeeds with the
module as it was made, and nothing is asked for and nothing is run in between. -/
def Contains (number : Nat) (realm : RealmRef) (p : Path) (k : Hook) (e : CompileError) (h : Host)
    (m : Ref) (h₃ : Host) (b rest : Journal) : Prop :=
  Hook.Contained number realm p k e h m h₃ ∧ ∃ h₁ h₂ c, c.result = .ok m ∧
    b = Hook.quietly p m h h₁ h₂ h₃ ++ ⟨.returned c, h₃⟩ :: rest

open Recorded in
/-- A load of a module whose source cannot be compiled is contained, unless loads are nested too
deep for it. -/
theorem contains_of_unfolds {x : Moment} {b : Journal} (hx : Unfolds x b)
    (hc : x.what = .called realm p) (hnone : x.host.registry.modules.get? p = none)
    (ha : Hook.Aborts number p k e x.host) (hplain : x.host.workspace.heap.PlainFor realm) :
    Refuses p x.host b ∨ ∃ m h₃ rest, Contains number realm p k e x.host m h₃ b rest := by
  obtain ⟨n, hn⟩ := hx.called realm p hc
  cases n with
  | zero =>
    rw [loadWithin, hnone] at hn
    obtain ⟨d, hd⟩ := hn
    exact .inl ⟨_, (List.cons.inj hd).2.symm⟩
  | succ n =>
    obtain ⟨m, h₁, h₂, h₃, hload, hcontained⟩ :=
      Hook.loadNew_of_aborts (answerWithin n) ha hplain
    rw [loadWithin, hnone] at hn
    simp only [hload] at hn
    obtain ⟨rest, hrest⟩ := hn
    have hb := (List.cons.inj hrest).2.symm
    exact .inr ⟨m, h₃, rest, hcontained, h₁, h₂, _, rfl, hb.trans (List.append_assoc _ [_] rest)⟩

/-- What becomes of modules whose source cannot be compiled, in a journal.

The load of such a module is contained. Until the module is removed its handler is not dispatched
again and so no attempt is made to compile the source, every load of it gives the same module back
at once, and whoever asks for it gets the empty object that was made for its exports, as long as no
code has changed the module object itself. -/
structure Containment (j : Journal) : Prop where
  contained : ∀ a x b realm p number k e, j = a ++ x :: b → x.what = .called realm p →
    x.host.registry.modules.get? p = none → Hook.Aborts number p k e x.host →
    Refuses p x.host b ∨ ∃ m h₃ rest, Contains number realm p k e x.host m h₃ b rest
  undispatched : ∀ a x b realm p number k e m h₃ c d, j = a ++ x :: b →
    Contains number realm p k e x.host m h₃ b (c ++ d) → (∀ z ∈ c, z.removes p = false) →
    ∀ z ∈ c, z.dispatches p = false
  loaded : ∀ a x b realm p number k e m h₃ c y d realm' q, j = a ++ x :: b →
    Contains number realm p k e x.host m h₃ b (c ++ y :: d) → (∀ z ∈ c, z.removes p = false) →
    y.what = .called realm' q → p.same q → GivesBack q m y.host d
  required : ∀ a x b realm p number k e m h₃ c y d part r q, j = a ++ x :: b →
    Contains number realm p k e x.host m h₃ b (c ++ y :: d) → (∀ z ∈ c, z.removes p = false) →
    Journal.Untouched m exportsKey c → y.what = .asked part r →
    y.host.resolve r.specifier r.dir = .ok q → p.same q → Obtains r (.obj (m + 1)) y.host d

namespace Contains

variable {m : Ref} {h₃ : Host} {a b c d j rest : Journal} {x y : Moment} {part : Part}
  {r : Requirement} {first last : Script.Heap}

/-- The module is dispatched before its load returns, and not removed in between. -/
theorem dispatched (hc : Contains number realm p k e h m h₃ b (c ++ d)) (hj : j = a ++ x :: b)
    (hr : ∀ z ∈ c, z.removes p = false) :
    ∃ a' z c', j = a' ++ z :: ((c' ++ c) ++ d) ∧ z.what = .dispatched p m ∧
      ∀ y ∈ c' ++ c, y.removes p = false := by
  obtain ⟨-, h₁, h₂, load, -, rfl⟩ := hc
  refine ⟨a ++ [x, ⟨.ran .making h, ⟨h.registry, h₁.workspace⟩⟩], ⟨.dispatched p m, h₁⟩,
    [⟨.ran .code h₁, h₂⟩, ⟨.ran .marking h₂, h₃⟩, ⟨.completed p m, h₃⟩, ⟨.returned load, h₃⟩],
    ?_, rfl, ?_⟩
  · rw [hj]
    simp [Hook.quietly]
  · simpa [Moment.removes] using hr

/-- Where the load returns. -/
theorem returned (hc : Contains number realm p k e h m h₃ b rest) (hj : j = a ++ x :: b) :
    ∃ a' what, j = a' ++ ⟨what, h₃⟩ :: rest := by
  obtain ⟨-, h₁, h₂, load, -, rfl⟩ := hc
  exact ⟨a ++ x :: Hook.quietly p m h h₁ h₂ h₃, .returned load, by simp [hj]⟩

/-- As long as no code has changed it, the module object holds what it held when its load
returned. -/
theorem exports (hc : Contains number realm p k e h m h₃ b (c ++ y :: d)) (hj : j = a ++ x :: b)
    (htraces : Traces first j last) (hu : Journal.Untouched m exportsKey c)
    (hy : y.what = .asked part r) :
    y.host.workspace.heap.own m exportsKey = some (.plain (.obj (m + 1))) := by
  obtain ⟨a', what, rfl⟩ := hc.returned hj
  obtain ⟨before, hbefore, hafter⟩ := htraces.after.until
  have hasked : y.host.workspace.heap = before := by
    rcases hafter.1 with hsame | ⟨part', g, hran, -⟩
    · exact hsame
    · cases hy.symm.trans hran
  rw [hasked, hbefore.own hu]
  exact hc.1.exports

end Contains

namespace Session

/-- In every session in which the names of a module mean nothing special, failed compilations are
contained. -/
theorem containment (w : World) (ops : Session) (hplain : (ops.journal (.start w)).Plain) :
    Containment (ops.journal (.start w)) := by
  have htracked := tracked w ops (undisturbed ops (.start w) hplain)
  have hopens := ops.opens (.start w)
  have hunfolding := ops.unfolding (.start w)
  have htraces := ops.traces (.start w)
  generalize (ops.run (.start w)).workspace.heap = last at htraces
  generalize ops.journal (.start w) = j at hplain htracked hopens hunfolding htraces
  refine ⟨fun a x b realm p number k e he hx hnone ha => ?contained,
    fun a x b realm p number k e m h₃ c d he hc hr => ?undispatched,
    fun a x b realm p number k e m h₃ c y d realm' q he hc hr hy hs => ?loaded,
    fun a x b realm p number k e m h₃ c y d part r q he hc hr hu hy hq hs => ?required⟩
  case contained =>
    rw [he] at hunfolding
    exact contains_of_unfolds hunfolding.unfolds hx hnone ha
      (hplain x (by simp [he]) realm p hx hnone)
  case undispatched =>
    obtain ⟨a', z, c', he', hz, hr'⟩ := hc.dispatched he hr
    exact fun y hy => (once_of_tracked htracked he' hz hr' y (List.mem_append_right c' hy)).2
  case loaded =>
    obtain ⟨a', z, c', he', hz, hr'⟩ := hc.dispatched he hr
    exact givesBack_of_tracked htracked hopens he' hz hr' hy hs
  case required =>
    obtain ⟨a', z, c', he', hz, hr'⟩ := hc.dispatched he hr
    have hregistered : y.host.registry.modules.get? q = some m :=
      get?_of_tracked htracked he' hz hr' (by simp [Moment.removes, hy]) hs
    have hunfolds : Unfolds y d := by
      rw [he', ← List.cons_append, ← List.append_assoc] at hunfolding
      exact hunfolding.unfolds
    exact obtains_of_registered hunfolds hy hq hregistered (hc.exports he htraces hu hy)

theorem plain_bundling : ((bundling ++ rebuilding).journal (.start sources)).Plain := by
  rw [journal_of_prepared prepares_bundling]
  exact plain_rebuilding

/-- A module that is not compiled is asked for while another one is filled, given back later on,
removed, and asked for again. -/
theorem containment_rebuilding : ((bundling ++ rebuilding).journal (.start sources)).Plain ∧
    (bundler.Calm ∧ bundler.Own) ∧
      Containment ((bundling ++ rebuilding).journal (.start sources)) :=
  ⟨plain_bundling, ⟨StandIn.calm_fixed _ _ _, StandIn.own_fixed _ _ _⟩,
    containment sources (bundling ++ rebuilding) plain_bundling⟩

end Session

end LoadHook
