import LoadHook.Proofs.Hook.Reuse
import LoadHook.Proofs.Module.Stretch

/-!
# Decisions of a hook

What a hook does with a source depends on the output that it remembers, and on when the source and
the output were last changed. `Decides` is the table of its decisions, `decision_law` says what the
handler does by each of them.
-/
namespace LoadHook.Hook

open Script (RealmRef Ref)

variable {k k' : Hook} {t : FileTree} {s o : Path} {v w : Workspace} {number : Nat}
  {realm : RealmRef} {module : Ref}

/-- What a hook decides about a source. -/
inductive Decision where
  /-- It runs the output that it remembers. -/
  | reuse (output : Path)
  /-- It fails, for it cannot tell whether the source has changed. -/
  | refuse (cause : Cause)
  | compile

/-- The decision of a hook by what it remembers of a source, and by when the source and the output
were last changed. An output that cannot be looked at is stale; one that is as old as its source is
fresh. -/
inductive Decides (k : Hook) (t : FileTree) (s : Path) : Decision → Prop
  | fresh {o : Path} {changed written : Time} : k.cache.get? s = some o →
      t.mtime s = .ok changed → t.mtime o = .ok written → changed.nanos ≤ written.nanos →
      Decides k t s (.reuse o)
  | unseen {o : Path} {cause : Cause} : k.cache.get? s = some o → t.mtime s = .error cause →
      Decides k t s (.refuse cause)
  | unknown : k.cache.get? s = none → Decides k t s .compile
  | lost {o : Path} {changed : Time} {cause : Cause} : k.cache.get? s = some o →
      t.mtime s = .ok changed → t.mtime o = .error cause → Decides k t s .compile
  | stale {o : Path} {changed written : Time} : k.cache.get? s = some o →
      t.mtime s = .ok changed → t.mtime o = .ok written → written.nanos < changed.nanos →
      Decides k t s .compile

/-- What a decision makes of a hook and of the world. -/
def Decision.carriedOut (k : Hook) (s : Path) (w : World) :
    Decision → Except Cause (Choice × Hook × World)
  | .reuse o => .ok (k.reuse s o w)
  | .refuse cause => .error cause
  | .compile => .ok (k.compile s w)

/-- Whether a source that can be looked at has changed since its output was written. -/
theorem isModified_of_mtime {changed : Time} (hs : t.mtime s = .ok changed) :
    t.isModified s o = match t.mtime o with
      | .ok written => .ok (changed.later written)
      | .error _ => .ok true := by
  rw [FileTree.isModified, hs]
  rfl

theorem choose_eq {w : World} {d : Decision} (hd : Decides k w.tree s d) :
    k.choose s w = d.carriedOut k s w := by
  rw [choose]
  cases hd with
  | fresh ho hs hw hle =>
    rw [ho]
    simp [isModified_of_mtime hs, hw, Time.later, Int.not_lt.mpr hle, Decision.carriedOut]
  | unseen ho hs =>
    rw [ho]
    simp [FileTree.isModified, hs, bind, Except.bind, Decision.carriedOut]
  | unknown ho => rw [ho, Decision.carriedOut]
  | lost ho hs hw =>
    rw [ho]
    simp [isModified_of_mtime hs, hw, Decision.carriedOut]
  | stale ho hs hw hlt =>
    rw [ho]
    simp [isModified_of_mtime hs, hw, Time.later, hlt, Decision.carriedOut]

/-- A hook comes to a decision about every source. -/
theorem exists_decides (k : Hook) (t : FileTree) (s : Path) : ∃ d, Decides k t s d := by
  cases ho : k.cache.get? s with
  | none => exact ⟨_, .unknown ho⟩
  | some o =>
    cases hs : t.mtime s with
    | error cause => exact ⟨_, .unseen ho hs⟩
    | ok changed =>
      cases hw : t.mtime o with
      | error cause => exact ⟨_, .lost ho hs hw⟩
      | ok written =>
        by_cases hlt : written.nanos < changed.nanos
        · exact ⟨_, .stale ho hs hw hlt⟩
        · exact ⟨_, .fresh ho hs hw (Int.not_lt.mp hlt)⟩

/-- A hook does not come to two decisions about a source. -/
theorem Decides.unique {d d' : Decision} (hd : Decides k t s d) (hd' : Decides k t s d') :
    d = d' := by
  cases hd <;> cases hd' <;> grind

/-! ## What the handler does -/

/-- Nothing but the heap, the log, and what the hooks remember differs. -/
structure Uncounted (w w' : Workspace) : Prop where
  hooks : ∀ m, (at? w' m).map (fun k => { k with cache := .empty }) =
    (at? w m).map (fun k => { k with cache := .empty })
  world : { w'.world with log := w.world.log } = w.world

/-- Running an output and remembering it counts nothing, and runs no toolchain, but for what is
asked for meanwhile. -/
theorem stretches_finish (number : Nat) (realm : RealmRef) (module : Ref) (s o : Path)
    (w : Workspace) :
    Load.Stretches Workspace.Inner (fun _ => Uncounted) w (finish number realm module s o w) := by
  refine ((Load.composed_run realm o module).secluded w).bind fun _ w w₁ h => ?_
  rw [rememberFor, Load.change]
  refine .done ⟨fun m => ?_, ?_⟩
  · cases hk : at? w₁ number with
    | none => rw [h.at?]
    | some k =>
      by_cases hm : number = m
      · subst hm
        rw [at?_put hk, ← h.at?, hk]
        rfl
      · rw [at?_put_of_ne hm, h.at?]
  · cases at? w₁ number <;> exact h.world

theorem serve_of_skip {w' : World} (hk : at? v number = some k)
    (hc : k.choose s v.world = .ok (.skip, k', w')) :
    serve number realm module s v = .done (.ok (), put { v with world := w' } number k') := by
  have hskipped : chooseFor number s v =
      .done (.ok .skip, put { v with world := w' } number k') := by
    simp only [chooseFor, hk, hc]
  rw [serve, Load.bind_of_done hskipped]
  rfl

theorem serve_of_error {cause : Cause} (hk : at? v number = some k)
    (hc : k.choose s v.world = .error cause) :
    serve number realm module s v = .done (.error (.error (.uncheckable s cause)), v) := by
  have hrefused : chooseFor number s v = .done (.error (.error (.uncheckable s cause)), v) := by
    simp only [chooseFor, hk, hc]
  exact Load.bind_of_failed hrefused

/-- What a hook that is dispatched for a source does, by its decision.

The source is the file of the module, and reading it changes nothing that the decision is made by.
A fresh output is run as it is: the configuration is not looked for, the toolchain does not run, and
only the hit is counted. If the source cannot be looked at, nothing changes. Otherwise there is one
attempt to compile; its script is run and the compilation is counted, or its failure is reported
and counted and nothing is run. Whatever is run counts nothing by itself. -/
structure DecisionLaw (number : Nat) (realm : RealmRef) (module : Ref) (s : Path) (k : Hook)
    (v : Workspace) : Prop where
  handled : handler number realm module =
    (Load.filename realm module >>= serve number realm module)
  named : Load.Secluded (Load.filename realm module)
  decision : ∃ d, Decides k v.world.tree s d ∧ ∀ d', Decides k v.world.tree s d' → d' = d
  reused : ∀ o, Decides k v.world.tree s (.reuse o) →
    serve number realm module s v = finish number realm module s o (starting number v
      { k with stats := { k.stats with cacheHits := k.stats.cacheHits + 1 } }
      (v.world.report .info .hook ("  Skipping " ++ s.text)) o)
  refused : ∀ cause, Decides k v.world.tree s (.refuse cause) →
    serve number realm module s v = .done (.error (.error (.uncheckable s cause)), v)
  compiled : ∀ o, Decides k v.world.tree s .compile → (k.attempt s v.world).result = .ok o →
    serve number realm module s v = finish number realm module s o (starting number v
      { k with
        runs := (k.attempt s v.world).runs
        stats := { k.stats with compilations := k.stats.compilations + 1 } }
      (k.attempt s v.world).world o)
  aborted : ∀ e, Decides k v.world.tree s .compile → (k.attempt s v.world).result = .error e →
    serve number realm module s v = .done (.ok (),
      put { v with world := (k.attempt s v.world).world.report .error .hook e.message } number
        { k with
          runs := (k.attempt s v.world).runs
          stats := { k.stats with aborted := k.stats.aborted + 1 } })
  once : (k.attempt s v.world).runs = k.runs +
    match (Config.resolve v.world s k.settings.configFileName
      (k.settings.debugEnabled v.world)).1 with
    | .ok _ => 1
    | .error _ => 0
  uncounted : ∀ o w, Load.Stretches Workspace.Inner (fun _ => Uncounted) w
    (finish number realm module s o w)

/-- An attempt runs the toolchain once, if there is a configuration. -/
theorem runs_attempt (k : Hook) (s : Path) (w : World) : (k.attempt s w).runs = k.runs +
    match (Config.resolve w s k.settings.configFileName (k.settings.debugEnabled w)).1 with
    | .ok _ => 1
    | .error _ => 0 := by
  unfold attempt compileFile
  cases hc : Config.resolve w s k.settings.configFileName (k.settings.debugEnabled w) with
  | mk r w₁ =>
    cases r with
    | error e => rfl
    | ok config =>
      simp only
      split <;> rfl

/-- Whatever a hook remembers and whatever the files are, its handler keeps to the table. -/
theorem decision_law (number : Nat) (realm : RealmRef) (module : Ref) (s : Path)
    (hk : at? v number = some k) : DecisionLaw number realm module s k v where
  handled := rfl
  named := (Load.composed_filename realm module).secluded
  decision := by
    obtain ⟨d, hd⟩ := exists_decides k v.world.tree s
    exact ⟨d, hd, fun _ hd' => hd'.unique hd⟩
  reused o hd := serve_of_choose hk (choose_eq hd)
  refused cause hd := serve_of_error hk (choose_eq hd)
  compiled o hd hr := by
    have hc : k.choose s v.world = .ok (k.compile s v.world) := choose_eq hd
    exact serve_of_choose hk (hc.trans (congrArg _ (compile_of_ok hr)))
  aborted e hd hr := by
    have hc : k.choose s v.world = .ok (k.compile s v.world) := choose_eq hd
    exact serve_of_skip hk (hc.trans (congrArg _ (compile_of_error hr)))
  once := runs_attempt k s v.world
  uncounted o w := stretches_finish number realm module s o w

/-- A hook that has compiled two sources to one output runs it for the first of them. -/
theorem decision_law_triedBoth :
    Decides triedBoth.1 triedBoth.2.tree "/a.ts" (.reuse "/out.js") ∧
      DecisionLaw 0 0 0 "/a.ts" triedBoth.1 ⟨triedBoth.2, .empty, #[triedBoth.1]⟩ := by
  have hsource : triedBoth.2.tree.mtime "/a.ts" = .ok ⟨0⟩ := by decide +kernel
  have houtput : triedBoth.2.tree.mtime "/out.js" = .ok ⟨1⟩ := by decide +kernel
  exact ⟨.fresh known_triedBoth hsource houtput (by decide), decision_law 0 0 0 "/a.ts" rfl⟩

end LoadHook.Hook
