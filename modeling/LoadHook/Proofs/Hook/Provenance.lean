import LoadHook.Proofs.Hook.Asking

/-!
# Where remembered outputs come from

A hook remembers outputs that it has compiled and that have been run to their ends, and it forgets
none of them. A dispatch changes what is remembered for its own source only at its end, and for
another source only by dispatches of that source which are nested in it.
-/
namespace LoadHook

open Script (Value RealmRef Ref)
open Journal (Every)

variable {number : Nat} {s o : Path} {h h₁ g : Host} {j k past : Journal} {x y : Moment}
  {d : Dispatch}

/-! ## Every run conserves what a hook remembers -/

namespace Dispatch

/-- The moment at which a handler is dispatched. -/
def opening (d : Dispatch) : Moment := ⟨.dispatched d.path d.module, d.before⟩

theorem journal_eq (d : Dispatch) : d.journal = d.opening :: d.record.journal := rfl

theorem append_journal (past : Journal)
    (hrecord : d.record.journal = k ++ [⟨.ran .code g, d.after⟩]) :
    past ++ d.journal = past ++ d.opening :: k ++ [⟨.ran .code g, d.after⟩] := by
  rw [journal_eq, hrecord, List.append_assoc, List.cons_append]

end Dispatch

open Recorded in
/-- While the handler of a registered module runs, it is not dispatched again. -/
theorem Dispatch.once (hp : d.record.journal.Plain)
    (hd : (d.before.registry.modules.get? d.path).isSome) : d.record.journal.Omits d.path := by
  have hplayed : Played (.steps .code) d.before d.record.journal d.after :=
    played_perform (plays_within d.depth).2 .code (d.handler d.realm d.module) d.before
  exact hplayed.guards d.path (hplayed.quiets (by simp) hp) hd

open Recorded in
/-- A piece of a run that begins with the call of a module that is not registered. -/
theorem conserving_dispatched
    (hf : ∀ q h, Conserving number h (answerWithin d.depth q h).journal
      (answerWithin d.depth q h).host)
    (hnone : h.registry.modules.get? d.path = none)
    (made : perform .making (answerWithin d.depth) (Host.newModule d.realm d.path) h =
      ⟨.ok d.module, h₁, j⟩)
    (hj : Conserving number h j h₁) (hd : d.before = h₁.withModule d.path d.module) :
    Conserving number h (⟨.called d.realm d.path, h⟩ :: (j ++ d.journal)) d.after := by
  intro hh hp
  have hcalled : Conserves number h [⟨.called d.realm d.path, h⟩] h := .moment (by simp) rfl
  obtain ⟨hmade, hready⟩ := hj hh (hp.mono (by simp +contextual))
  have hplain : d.record.journal.Plain := hp.mono (by simp +contextual [d.journal_eq])
  have hcache : d.before.workspace.cache? number = h₁.workspace.cache? number := by
    rw [hd, Host.withModule]
  -- the object of the module holds its path, for it is made in one stretch
  obtain ⟨m, w', hdone, hnew⟩ := newModule_furnished d.path
    (hp _ List.mem_cons_self d.realm d.path rfl hnone)
  have hfile : d.before.workspace.heap.Holds d.module (Script.key "filename")
      (.text d.path.text) := by
    rw [perform_of_done hdone] at made
    cases made
    rw [hd]
    exact hnew.filename
  have honce : (d.before.registry.modules.get? d.path).isSome := by
    rw [hd]
    exact Option.isSome_iff_exists.mpr
      ⟨d.module, PathMap.get?_insert_of_same (Path.same_refl d.path)⟩
  have hbefore : d.before.Ready number := hready.of_cache hcache (by rw [hd]; rfl)
  obtain ⟨k, g, hrecord, hk, hends, hafter⟩ := Dispatch.settles hf hbefore hplain hfile
  exact ⟨hcalled.append (hmade.append
    (.dispatch hcache hrecord (Dispatch.once hplain honce) hk hends)), hafter⟩

/-- Every piece of a run conserves what the hook of a number remembers. -/
theorem runLaw_conserving (number : Nat) : RunLaw (Conserving number) where
  nil _ hh _ := ⟨.nil rfl, hh⟩
  append hj hk hh hp :=
    have hj := hj hh (hp.mono (by simp +contextual))
    have hk := hk hj.2 (hp.mono (by simp +contextual))
    ⟨hj.1.append hk.1, hk.2⟩
  still _ _ hw hh _ := ⟨.moment hw rfl, hh⟩
  stretch _ _ _ hw hh _ := by
    have hcache := Workspace.Same.cache? (hw.at? number)
    exact ⟨.moment (by simp) hcache, hh.of_cache hcache rfl⟩
  dropped _ _ hh _ := ⟨.moment (by simp) rfl, hh.of_cache rfl rfl⟩
  evicted _ _ hh _ := ⟨.moment (by simp) rfl, hh.of_cache rfl rfl⟩
  cleared _ hh _ := ⟨.moment (by simp) rfl, hh.of_cache rfl rfl⟩
  hooked k h hh _ := by
    obtain ⟨c, hc⟩ := hh.exists_hook
    have hcache := (Host.same_addHook hc k).cache?
    exact ⟨.nil hcache, hh.of_cache hcache rfl⟩
  edited _ _ hh _ := ⟨.nil rfl, hh.of_cache rfl rfl⟩
  dispatched hf hnone made hj hd := conserving_dispatched hf hnone made hj hd

/-! ## Changes -/

/-- A dispatch for a source has run an output to its end, and the output is remembered then. -/
structure Dispatch.Stores (d : Dispatch) (number : Nat) (s o : Path) : Prop where
  source : d.path.same s
  completed : d.record.result = .ok ()
  executed : d.Executes number o
  cached : d.after.cached number s = some o

/-- What is remembered for a source at the end of a piece of a run: the same as before, or what was
stored by a dispatch that has ended. -/
def Recalls (number : Nat) (s : Path) (h : Host) (j : Journal) (h' : Host) : Prop :=
  h'.cached number s = h.cached number s ∨
    ∃ (d : Dispatch) (o : Path), d.journal <:+: j ∧ d.Stores number s o ∧
      h'.cached number s = some o

theorem Recalls.mono (hj : Recalls number s h j h₁) (hjk : j <:+: k) :
    Recalls number s h k h₁ := by
  rcases hj with hsame | ⟨d, o, hd, hstores, ho⟩
  · exact .inl hsame
  · exact .inr ⟨d, o, hd.trans hjk, hstores, ho⟩

/-- What is remembered for a source when an output has been stored for another one, or for it. -/
theorem cached_of_insert {c : OutputCache} (hg : g.workspace.cache? number = some c)
    (hh : h.workspace.cache? number = some (c.insert d.path o)) (s : Path) :
    h.cached number s = if d.path.same s then some o else g.cached number s := by
  rw [Host.cached, Host.cached, hg, hh]
  simp only [Option.bind_some]
  split
  · next hs => exact PathMap.get?_insert_of_same hs
  · next hs => exact PathMap.get?_insert_of_not_same (Bool.eq_false_iff.mpr hs)

/-- What a dispatch comes to at its end. -/
theorem Dispatch.Ends.cached_cases (he : d.Ends number g) (s : Path) :
    d.after.cached number s = g.cached number s ∨ ∃ o, d.Stores number s o := by
  cases he with
  | kept hcache => exact .inl (Host.cached_congr hcache s)
  | @stored o c hx hok hg hafter =>
    have hcached := cached_of_insert hg hafter s
    by_cases hs : d.path.same s
    · rw [if_pos hs] at hcached
      exact .inr ⟨o, hs, hok, hx, hcached⟩
    · exact .inl (by rw [hcached, if_neg hs])

theorem Conserves.recalls (hj : Conserves number h j h₁) (s : Path) :
    Recalls number s h j h₁ := by
  induction hj with
  | nil hcache | moment _ hcache => exact .inl (Host.cached_congr hcache s)
  | @append h h₁ h₂ j k _ _ ihj ihk =>
    rcases ihk with hsame | ⟨d, o, hd, hstores, ho⟩
    · rw [Recalls, hsame]
      exact ihj.mono (List.prefix_append j k).isInfix
    · exact .inr ⟨d, o, hd.trans (List.suffix_append j k).isInfix, hstores, ho⟩
  | @dispatch d h g k hcache hrecord _ _ hends ih =>
    have hk : k <:+: d.journal := ⟨[d.opening], [⟨.ran .code g, d.after⟩],
      (Dispatch.append_journal [] hrecord).symm⟩
    rcases hends.cached_cases s with hsame | ⟨o, hstores⟩
    · rw [Recalls, hsame, ← Host.cached_congr hcache]
      exact ih.mono hk
    · exact .inr ⟨d, o, List.infix_rfl, hstores, hstores.cached⟩

/-! ## What is carried along -/

/-- A property `S` of hosts after a past that is carried along by a property `P` of moments after
theirs, where a hook remembers the same and over the dispatches at whose end it remembers more. -/
structure Carried (number : Nat) (S : Journal → Host → Prop) (P : Journal → Moment → Prop) :
    Prop where
  congr {past : Journal} {h h₁ : Host} : S past h →
    h₁.workspace.cache? number = h.workspace.cache? number → S past h₁
  moment {past : Journal} {h : Host} {x : Moment} : S past h →
    x.host.workspace.cache? number = h.workspace.cache? number → P past x
  after {past : Journal} {x : Moment} : P past x → S (past ++ [x]) x.host
  stored {past : Journal} {d : Dispatch} {g : Host} {k : Journal} {o : Path} {c : OutputCache} :
    P past d.opening → d.record.journal = k ++ [⟨.ran .code g, d.after⟩] →
    S (past ++ d.opening :: k) g → d.Executes number o → d.record.result = .ok () →
    g.workspace.cache? number = some c →
    d.after.workspace.cache? number = some (c.insert d.path o) →
    P (past ++ d.opening :: k) ⟨.ran .code g, d.after⟩

/-- What is carried along holds at every moment of a run, and at its end. -/
theorem Conserves.carries {S : Journal → Host → Prop} {P : Journal → Moment → Prop}
    (hj : Conserves number h j h₁) (hcarried : Carried number S P) (hh : S past h) :
    Every P past j ∧ S (past ++ j) h₁ := by
  induction hj generalizing past with
  | nil hcache => exact ⟨trivial, by simpa using hcarried.congr hh hcache⟩
  | append _ _ ihj ihk =>
    obtain ⟨hj, hmiddle⟩ := ihj hh
    obtain ⟨hk, hlast⟩ := ihk hmiddle
    exact ⟨Journal.every_append.mpr ⟨hj, hk⟩, by rwa [← List.append_assoc]⟩
  | @moment what h h₁ _ hcache =>
    have hx : P past ⟨what, h₁⟩ := hcarried.moment hh hcache
    exact ⟨⟨hx, trivial⟩, hcarried.after hx⟩
  | @dispatch d h g k hcache hrecord _ _ hends ih =>
    have hopening : P past d.opening := hcarried.moment hh hcache
    obtain ⟨hk, hg⟩ := ih (hcarried.after hopening)
    rw [← List.append_cons] at hg
    have hend : P (past ++ d.opening :: k) ⟨.ran .code g, d.after⟩ := by
      cases hends with
      | kept hc => exact hcarried.moment hg hc
      | stored hx hok hc hd => exact hcarried.stored hopening hrecord hg hx hok hc hd
    rw [Dispatch.append_journal past hrecord]
    refine ⟨?_, hcarried.after hend⟩
    rw [d.journal_eq, hrecord]
    refine ⟨hopening, Journal.every_append.mpr ⟨hk, ?_, trivial⟩⟩
    rwa [← List.append_cons]

/-! ## Provenance -/

/-- Where the output comes from that is remembered for a source: it is what an attempt to compile
the source came to, and it has been run to its end in a dispatch for the source, since when it has
been what is remembered for the source. -/
structure Provenance (number : Nat) (past : Journal) (s o : Path) : Prop where
  compiled : ∃ d : Dispatch, d.opening ∈ past ∧ d.path.same s ∧ d.Attempts number (.ok o)
  executed : ∃ (a c : Journal) (d : Dispatch), past = a ++ d.journal ++ c ∧
    d.Stores number s o ∧ ∀ y ∈ c, y.host.cached number s = some o

theorem Provenance.concat (hp : Provenance number past s o)
    (hx : x.host.cached number s = some o) : Provenance number (past ++ [x]) s o where
  compiled := by
    obtain ⟨d, hd, hcompiled⟩ := hp.compiled
    exact ⟨d, List.mem_append_left _ hd, hcompiled⟩
  executed := by
    obtain ⟨a, c, d, rfl, hstores, hc⟩ := hp.executed
    refine ⟨a, c ++ [x], d, List.append_assoc _ c [x], hstores, fun y hy => ?_⟩
    rcases List.mem_append.mp hy with hy | hy
    · exact hc y hy
    · rw [List.mem_singleton.mp hy]
      exact hx

/-- What a hook remembers after a past: everything that it has remembered it still knows an output
for, and each output has its provenance. -/
structure Recollects (number : Nat) (past : Journal) (h : Host) : Prop where
  kept : ∀ y ∈ past, ∀ s, (y.host.cached number s).isSome → (h.cached number s).isSome
  known : ∀ s o, h.cached number s = some o → Provenance number past s o

namespace Recollects

/-- A host that remembers the same recollects the same. -/
theorem congr (hh : Recollects number past h)
    (hc : h₁.workspace.cache? number = h.workspace.cache? number) :
    Recollects number past h₁ where
  kept y hy s hs := by
    rw [Host.cached_congr hc]
    exact hh.kept y hy s hs
  known s o ho := hh.known s o (by rw [← Host.cached_congr hc, ho])

/-- One moment more, at which the same is remembered. -/
theorem concat (hh : Recollects number past h)
    (hc : x.host.workspace.cache? number = h.workspace.cache? number) :
    Recollects number (past ++ [x]) x.host where
  kept y hy s hs := by
    rcases List.mem_append.mp hy with hy | hy
    · exact (hh.congr hc).kept y hy s hs
    · rwa [← List.mem_singleton.mp hy]
  known s o ho := ((hh.congr hc).known s o ho).concat ho

/-- An output that a hook has chosen is what it remembers, or what it has compiled. -/
theorem compiled (hh : Recollects number past d.before)
    (hpast : d.opening ∈ past) (hx : d.Executes number o) :
    ∃ d' : Dispatch, d'.opening ∈ past ∧ d'.path.same d.path ∧ d'.Attempts number (.ok o) := by
  obtain ⟨hd, k, k', w', _, hk, hc, -⟩ := hx
  rcases Hook.choose_cases hc with he | ⟨o', ho, he⟩
  · refine ⟨d, hpast, Path.same_refl d.path, hd, k, hk, he ▸ hc, ?_⟩
    cases hr : (k.attempt d.path d.before.workspace.world).result with
    | ok o₁ =>
      cases he.trans (Hook.compile_of_ok hr)
      rfl
    | error e => cases he.trans (Hook.compile_of_error hr)
  · cases he
    refine (hh.known d.path o ?_).compiled
    rw [Host.cached, Workspace.cache?, hk]
    exact ho

/-- The last moment of a dispatch, if what comes before it is recollected. -/
theorem stored {c : OutputCache}
    (hbefore : Recollects number (past ++ [d.opening]) d.before)
    (hrecord : d.record.journal = k ++ [⟨.ran .code g, d.after⟩])
    (hg : Recollects number (past ++ d.opening :: k) g)
    (hx : d.Executes number o) (hok : d.record.result = .ok ())
    (hcache : g.workspace.cache? number = some c)
    (hafter : d.after.workspace.cache? number = some (c.insert d.path o)) :
    Recollects number (past ++ d.journal) d.after := by
  have hcached := cached_of_insert hcache hafter
  have hjournal := Dispatch.append_journal past hrecord
  -- the source of the dispatch has a new output, and the other sources have what they had
  refine ⟨fun y hy s hs => ?_, fun s o' ho' => ?_⟩
  · rw [hcached]
    split
    · rfl
    · next hns =>
      rw [hjournal] at hy
      rcases List.mem_append.mp hy with hy | hy
      · exact hg.kept y hy s hs
      · rwa [List.mem_singleton.mp hy, hcached, if_neg hns] at hs
  · by_cases hs : d.path.same s
    · obtain rfl : o = o' := by simpa [hcached, hs] using ho'
      obtain ⟨d', hd', hs', hattempts⟩ := hbefore.compiled (by simp) hx
      refine ⟨⟨d', ?_, Path.same_trans hs' hs, hattempts⟩,
        past, [], d, (List.append_nil _).symm, ⟨hs, hok, hx, ho'⟩, by simp⟩
      rw [d.journal_eq]
      simp only [List.mem_append, List.mem_cons, List.not_mem_nil, or_false] at hd' ⊢
      exact hd'.imp_right .inl
    · rw [hjournal]
      refine (hg.known s o' ?_).concat ho'
      rwa [hcached, if_neg hs] at ho'

end Recollects

/-- Recollections are carried along. -/
theorem carried_recollects (number : Nat) :
    Carried number (Recollects number) fun past x => Recollects number (past ++ [x]) x.host where
  congr := Recollects.congr
  moment := Recollects.concat
  after := id
  stored hbefore hrecord hg hx hok hc hd := by
    rw [← Dispatch.append_journal _ hrecord]
    exact .stored hbefore hrecord hg hx hok hc hd

/-! ## Dispatches -/

/-- What a dispatch does to what a hook remembers.

If it ends with an error, or if compiling the source has failed, the same is remembered for the
source as before. If it ends without an error an output has been run to its end, and is remembered
for the source. What is remembered for another source changes by dispatches of that source only,
which are nested in it and have run the output to its end. -/
structure DispatchLaw (number : Nat) (d : Dispatch) : Prop where
  failed : ∀ e s, d.record.result = .error e → d.path.same s →
    d.after.cached number s = d.before.cached number s
  aborted : ∀ e s, d.Attempts number (.error e) → d.path.same s →
    d.after.cached number s = d.before.cached number s
  completed : d.handler = Hook.handler number → d.record.result = .ok () →
    (∃ e, d.Attempts number (.error e)) ∨
      ∃ o, d.Executes number o ∧ ∀ s, d.path.same s → d.after.cached number s = some o
  others : ∀ s, d.path.same s = false → Recalls number s d.before d.record.journal d.after

theorem Dispatch.mem_dispatches {d' : Dispatch} (hd : d'.journal <:+: j) :
    (d'.path, d'.module) ∈ Journal.dispatches j :=
  List.mem_filterMap.mpr ⟨_, hd.subset List.mem_cons_self, rfl⟩

theorem dispatchLaw (hrecord : d.record.journal = k ++ [⟨.ran .code g, d.after⟩])
    (honce : d.record.journal.Omits d.path)
    (hk : Conserves number d.before k g) (hends : d.Ends number g) : DispatchLaw number d := by
  have hinfix : k <:+: d.record.journal := by
    rw [hrecord]
    exact (List.prefix_append k _).isInfix
  -- no dispatch that is nested in this one is for the same source
  have hwhile {s : Path} (hs : d.path.same s) : g.cached number s = d.before.cached number s := by
    rcases hk.recalls s with hsame | ⟨d', o, hd', hstores, -⟩
    · exact hsame
    · have hother := honce _ _ (Dispatch.mem_dispatches (hd'.trans hinfix))
      cases hother.symm.trans (Path.same_trans hstores.source (Path.same_symm hs))
  refine ⟨fun e s he hs => ?_, fun e s he hs => ?_, fun hd hok => ?_, fun s hs => ?_⟩
  · rcases hends.cached_cases s with hsame | ⟨o, hstores⟩
    · exact hsame.trans (hwhile hs)
    · cases he.symm.trans hstores.completed
  · rcases hends.cached_cases s with hsame | ⟨o, hstores⟩
    · exact hsame.trans (hwhile hs)
    · exact absurd he hstores.executed.not_aborted
  · cases hends with
    | kept _ he =>
      rcases he hd with ⟨e, he⟩ | habort
      · cases hok.symm.trans he
      · exact .inl habort
    | @stored o c hx _ hg hafter =>
      refine .inr ⟨o, hx, fun s hs => ?_⟩
      rw [cached_of_insert hg hafter, if_pos hs]
  · rcases hends.cached_cases s with hsame | ⟨o, hstores⟩
    · rw [Recalls, hsame]
      exact (hk.recalls s).mono hinfix
    · cases hs.symm.trans hstores.source

/-- A moment at which a handler is dispatched begins a dispatch that keeps to the law, if what
follows is long enough for it to end. -/
def Abides (number : Nat) (x : Moment) (rest : Journal) : Prop :=
  ∀ p m, x.what = .dispatched p m → ∃ d : Dispatch, d.path = p ∧ d.module = m ∧
    d.before = x.host ∧ d.record.journal <+: rest ∧ DispatchLaw number d

theorem Abides.append (hx : Abides number x j) (k : Journal) : Abides number x (j ++ k) := by
  intro p m hp
  obtain ⟨d, hpath, hmodule, hbefore, hj, hlaw⟩ := hx p m hp
  exact ⟨d, hpath, hmodule, hbefore, hj.trans (List.prefix_append j k), hlaw⟩

/-- Wherever a handler is dispatched, the dispatch keeps to the law. -/
theorem Conserves.abides (hj : Conserves number h j h₁) {a b : Journal} (he : j = a ++ x :: b) :
    Abides number x b := by
  induction hj generalizing a b with
  | nil => simp at he
  | append _ _ ihj ihk =>
    rcases Journal.split_append he with ⟨b', hj, rfl⟩ | ⟨a', hk⟩
    · exact (ihj hj).append _
    · exact ihk hk
  | @moment what h h₁ hwhat _ =>
    have hx : x ∈ [⟨what, h₁⟩] := by simp [he]
    rw [List.mem_singleton.mp hx]
    exact fun p m hp => absurd hp (hwhat p m)
  | @dispatch d h g k _ hrecord honce hk hends ih =>
    rcases List.cons_eq_append_iff.mp he with ⟨-, hx⟩ | ⟨a', -, hx⟩
    · obtain ⟨rfl, rfl⟩ := List.cons.inj hx
      rintro p m ⟨⟩
      exact ⟨d, rfl, rfl, rfl, List.prefix_rfl, dispatchLaw hrecord honce hk hends⟩
    · rcases Journal.split_append (hrecord.symm.trans hx) with ⟨b', hj, rfl⟩ | ⟨c, hc⟩
      · exact (ih hj).append _
      · have hx : x ∈ [⟨.ran .code g, d.after⟩] := by simp [hc]
        rw [List.mem_singleton.mp hx]
        rintro p m ⟨⟩

/-! ## Sessions -/

/-- What the hook of a number remembers along a journal that ends in a host.

At every moment and at the end it still knows an output for each source that it has remembered one
for before; each output has been compiled for its source, and run to its end as the body of its
module when it was stored. Each dispatch keeps to the law of dispatches. -/
structure CacheLaw (number : Nat) (j : Journal) (h : Host) : Prop where
  moments : ∀ a x b, j = a ++ x :: b → Recollects number (a ++ [x]) x.host
  last : Recollects number j h
  dispatches : ∀ a x b, j = a ++ x :: b → Abides number x b

/-- A session with proper handlers conserves what the hook remembers. -/
theorem Session.conserves (ops : Session) {h : Host} (hh : h.Ready number)
    (hreg : ∀ e f, .register e f ∈ ops → Hook.Proper number f) (hplain : (ops.journal h).Plain) :
    Conserves number h (ops.journal h) (ops.run h) := by
  have hregister (e : String) (f : Handler) (hf : .register e f ∈ ops) (h : Host) :
      Conserving number h [] (h.register e f) := fun hh _ =>
    ⟨.nil rfl, hh.present, Registry.forall_mem_register hh.handlers e (hreg e f hf)⟩
  exact ((runLaw_conserving number).session ops h hregister hh hplain).1

/-- In every session that begins with a hook that remembers nothing, the hook keeps to the law of
caches, if the handlers are proper and the names of a module mean nothing special. -/
theorem Session.cache_law (ops : Session) {h : Host} {c : Hook} {number : Nat}
    (hc : Hook.at? h.workspace number = some c) (hempty : c.cache = .empty)
    (hhandlers : ∀ e f, (e, f) ∈ h.registry.handlers → Hook.Proper number f)
    (hreg : ∀ e f, .register e f ∈ ops → Hook.Proper number f)
    (hplain : (ops.journal h).Plain) : CacheLaw number (ops.journal h) (ops.run h) := by
  have hcache : h.workspace.cache? number = some .empty := by
    rw [Workspace.cache?, hc, Option.map_some, hempty]
  have hready : h.Ready number := ⟨by rw [hcache]; rfl, hhandlers⟩
  have hj := ops.conserves hready hreg hplain
  have hstart : Recollects number [] h := by
    refine ⟨by simp, fun s o ho => ?_⟩
    rw [Host.cached, hcache] at ho
    cases ho
  obtain ⟨hmoments, hlast⟩ := hj.carries (carried_recollects number) hstart
  exact ⟨fun a x b he => Journal.every_iff.mp hmoments a x b he, hlast, fun _ _ _ => hj.abides⟩

/-- Sources are compiled and run with what they ask for, in a circle and in vain, and are taken from
the cache. -/
theorem Session.cache_law_rebuilding : (rebuilding.journal workshop).Plain ∧
    CacheLaw 0 (rebuilding.journal workshop) (rebuilding.run workshop) := by
  refine ⟨plain_rebuilding, cache_law rebuilding (c := .new .standard bundler) rfl rfl
    (fun e f hf => ?_) (fun e f hf => ?_) plain_rebuilding⟩
  · rw [handlers_workshop hf]
    exact Hook.proper_handler 0
  · simp [rebuilding] at hf

end LoadHook
