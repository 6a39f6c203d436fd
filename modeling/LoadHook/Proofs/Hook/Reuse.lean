import LoadHook.Proofs.Files.Writing
import LoadHook.Proofs.Hook.Work
import LoadHook.Proofs.Module.Object

/-!
# Fresh outputs

A hook trusts an output as long as it is not older than its source. It does not ask who wrote it:
what is run is what the latest run of the toolchain has left there, which need not have been a run
for the source that is loaded. It is what the source was compiled to unless another run has left
another text at the output since.
-/
namespace LoadHook

variable {H later earlier : List Deed} {s o : Path} {a b : Trial} {d : Deed}

theorem latestTrial?_isSome (hc : Compiled s o H) : ∃ b, latestTrial? H = some b := by
  obtain ⟨c, hmem, -⟩ := hc
  exact Option.isSome_iff_exists.mp (List.findSome?_isSome_iff.mpr ⟨_, hmem, rfl⟩)

theorem Compiled.cons (hc : Compiled s o H) (d : Deed) : Compiled s o (d :: H) := by
  obtain ⟨c, hmem, hc⟩ := hc
  exact ⟨c, List.mem_cons_of_mem d hmem, hc⟩

theorem compiled_cons (hd : d.trial? = none) : Compiled s o (d :: H) ↔ Compiled s o H := by
  refine ⟨fun ⟨c, hmem, hc⟩ => ?_, fun hc => hc.cons d⟩
  rcases List.mem_cons.mp hmem with rfl | hmem
  · cases hd
  · exact ⟨c, hmem, hc⟩

/-- What was compiled to an output has a latest compilation. -/
theorem Compiled.latest (hc : Compiled s o H) :
    ∃ a p, latestCompilation? s H = some a ∧ .tried a ∈ H ∧ a.output = some p := by
  obtain ⟨c, hmem, hs, ho⟩ := hc
  have hsome : (H.findSome? (Deed.compilation? s)).isSome :=
    List.findSome?_isSome_iff.mpr ⟨_, hmem, by simp [Deed.compilation?, hs, ho]⟩
  obtain ⟨a, ha⟩ := Option.isSome_iff_exists.mp hsome
  obtain ⟨d, hd, hda⟩ := List.exists_of_findSome?_eq_some ha
  cases d with
  | tried b =>
    simp only [Deed.compilation?, Option.ite_none_right_eq_some, Bool.and_eq_true,
      Option.some.injEq] at hda
    obtain ⟨⟨-, hout⟩, rfl⟩ := hda
    obtain ⟨p, hp⟩ := Option.isSome_iff_exists.mp hout
    exact ⟨b, p, ha, hd, hp⟩
  | _ => cases hda

/-- A deed that is no run of the toolchain comes after every such run. -/
theorem split_of_cons (hd : d.trial? = none) (e : d :: H = later ++ .tried a :: earlier) :
    ∃ rest, later = d :: rest ∧ H = rest ++ .tried a :: earlier := by
  cases later with
  | nil =>
    cases e
    cases hd
  | cons c rest =>
    obtain ⟨rfl, rfl⟩ := List.cons.inj e
    exact ⟨rest, rfl, rfl⟩

theorem Untouched.tail (hu : Untouched (d :: H)) : Untouched H :=
  fun later before after earlier e =>
    hu (d :: later) before after earlier (congrArg (List.cons d) e)

namespace Hook

variable {start k k' : Hook} {w₀ w w' : World} {emit : String → String} {toolchain : Toolchain}
  {settings : Settings} {text : String}

/-! ## What is at an output -/

/-- The text at an output is the one that the latest run of the toolchain has left there. -/
theorem Worked.left (hw : Worked start w₀ H k w) (hu : Untouched H) (hc : Compiled s o H)
    (hb : latestTrial? H = some b) : w.tree.readText o = b.after.tree.readText o := by
  induction hw with
  | idle => cases hb
  | compiled _ _ _ =>
    -- a compilation is the latest run of the toolchain, whatever source it is for
    cases hb
    rfl
  | reused _ _ _ ih => exact ih hu.tail ((compiled_cons rfl).mp hc) hb
  | remembered _ _ ih => exact ih hu.tail ((compiled_cons rfl).mp hc) hb
  | elsewhere w' _ ih =>
    have hc := (compiled_cons rfl).mp hc
    rw [hu [] _ _ _ rfl s o hc]
    exact ih hu.tail hc hb

/-- The text that a run of the toolchain has left at an output stays there as long as the later
runs spare it. -/
theorem Worked.kept (hw : Worked start w₀ H k w) (hu : Untouched H)
    (e : H = later ++ .tried a :: earlier) (ho : a.output = some o)
    (hspares : ∀ b, .tried b ∈ later → b.Spares o) :
    w.tree.readText o = a.after.tree.readText o := by
  have hcompiled {before after : List Deed} : Compiled a.source o (after ++ .tried a :: before) :=
    ⟨a, by simp, Path.same_refl _, ho⟩
  induction hw generalizing later with
  | idle => simp at e
  | @compiled H k w s _ _ ih =>
    cases later with
    | nil =>
      cases e
      rfl
    | cons d later =>
      obtain ⟨rfl, rfl⟩ := List.cons.inj e
      have hspared : (k.trial s w).Spares o := hspares _ List.mem_cons_self
      exact hspared.trans (ih hu.tail rfl fun b hb => hspares b (List.mem_cons_of_mem _ hb))
  | reused _ _ _ ih =>
    obtain ⟨later, rfl, rfl⟩ := split_of_cons rfl e
    exact ih hu.tail rfl fun b hb => hspares b (List.mem_cons_of_mem _ hb)
  | remembered _ _ ih =>
    obtain ⟨later, rfl, rfl⟩ := split_of_cons rfl e
    exact ih hu.tail rfl fun b hb => hspares b (List.mem_cons_of_mem _ hb)
  | elsewhere w' _ ih =>
    obtain ⟨later, rfl, rfl⟩ := split_of_cons rfl e
    rw [hu [] _ _ _ rfl a.source o hcompiled]
    exact ih hu.tail rfl fun b hb => hspares b (List.mem_cons_of_mem _ hb)

/-! ## What a hook remembers -/

/-- What a hook has chosen, and what it remembers, is what the source has been compiled to. -/
theorem Worked.provenance (hw : Worked (.new settings toolchain) w₀ H k w) :
    (∀ s o, Chosen s o H → Compiled s o H) ∧
      ∀ s o, k.cache.get? s = some o → Compiled s o H := by
  induction hw with
  | idle => exact ⟨fun s o hc => by simp [Chosen] at hc, nofun⟩
  | @compiled H k w s _ _ ih =>
    obtain ⟨hchosen, hcache⟩ := ih
    refine ⟨fun r o hc => ?_, fun r o ho => ?_⟩
    · rcases hc with ⟨a, hmem, rfl, ho⟩ | ⟨v, hmem⟩
      · exact ⟨a, hmem, Path.same_refl _, ho⟩
      · exact (hchosen r o (.inr ⟨v, by simpa using hmem⟩)).cons _
    · rw [(compile_keeps k s w).2.1] at ho
      exact (hcache r o ho).cons _
  | @reused H k w s o _ ho _ ih =>
    obtain ⟨hchosen, hcache⟩ := ih
    refine ⟨fun r p hc => ?_, fun r p hp => (hcache r p hp).cons _⟩
    rcases hc with ⟨a, hmem, hr, hp⟩ | ⟨v, hmem⟩
    · exact (hchosen r p (.inl ⟨a, by simpa using hmem, hr, hp⟩)).cons _
    · rcases List.mem_cons.mp hmem with he | hmem
      · cases he
        exact (hcache s o ho).cons _
      · exact (hchosen r p (.inr ⟨v, hmem⟩)).cons _
  | @remembered H k w s o _ hso ih =>
    obtain ⟨hchosen, hcache⟩ := ih
    refine ⟨fun r p hc => (hchosen r p (by simpa [Chosen] using hc)).cons _, fun r p hp => ?_⟩
    rcases PathMap.get?_insert_eq_some hp with ⟨hs, rfl⟩ | ⟨-, hold⟩
    · obtain ⟨c, hmem, hc, ho⟩ := hchosen s p hso
      exact ⟨c, List.mem_cons_of_mem _ hmem, Path.same_trans hc hs, ho⟩
    · exact (hcache r p hold).cons _
  | elsewhere w' _ ih =>
    obtain ⟨hchosen, hcache⟩ := ih
    exact ⟨fun r p hc => (hchosen r p (by simpa [Chosen] using hc)).cons _,
      fun r p hp => (hcache r p hp).cons _⟩

theorem Worked.toolchain_eq (hw : Worked start w₀ H k w) : k.toolchain = start.toolchain := by
  induction hw with
  | idle => rfl
  | @compiled H k w s _ _ ih => exact (compile_keeps k s w).1.trans ih
  | reused _ _ _ ih | remembered _ _ ih | elsewhere _ _ ih => exact ih

/-- Every compilation of a hook with a faithful toolchain leaves the compiled text of the source at
its output. -/
theorem Worked.faithful (hw : Worked start w₀ H k w) (hf : start.toolchain.Faithful emit)
    (ha : .tried a ∈ H) (ho : a.output = some o)
    (ht : a.before.tree.readText a.source = .ok text) :
    a.after.tree.readText o = .ok (emit text) := by
  induction hw with
  | idle => simp at ha
  | compiled hw _ ih =>
    rcases List.mem_cons.mp ha with he | ha
    · cases he
      exact trial_of_faithful (hw.toolchain_eq ▸ hf) ho ht
    · exact ih ha
  | reused _ _ _ ih | remembered _ _ ih | elsewhere _ _ ih => exact ih (by simpa using ha)

/-! ## The handler -/

/-- Runs an output as the body of a module, and remembers it for a source. -/
def finish (number : Nat) (realm : Script.RealmRef) (module : Script.Ref) (s o : Path) :
    Load Unit := do
  let _ ← Sandbox.run realm o module
  rememberFor number s o

/-- What the handler of a hook does with a source. -/
def serve (number : Nat) (realm : Script.RealmRef) (module : Script.Ref) (s : Path) :
    Load Unit := do
  match ← chooseFor number s with
  | .skip => return ()
  | .run output =>
    Load.report .info .hook ("  Running " ++ output.text)
    finish number realm module s output

/-- What is there when an output is about to be run: a hook has come to a new state, in a world of
which it tells what it runs. -/
def starting (number : Nat) (v : Workspace) (k : Hook) (w : World) (o : Path) : Workspace :=
  put { v with world := w.report .info .hook ("  Running " ++ o.text) } number k

/-- Runs a text as the body of a module and remembers the output that it was read from. -/
def execute (number : Nat) (realm : Script.RealmRef) (module : Script.Ref) (s o : Path)
    (text : String) : Load Unit := do
  let _ ← (do
    let inner ← Sandbox.prepare realm o module
    let text ← Load.withoutNul text
    Load.script (Script.runText inner false text))
  rememberFor number s o

section Handler

variable {number : Nat} {realm : Script.RealmRef} {module : Script.Ref} {v : Workspace}

/-- The handler of a hook serves the file of the module. -/
theorem handler_eq : handler number realm module =
    (Load.filename realm module >>= serve number realm module) := rfl

theorem serve_of_choose (hk : at? v number = some k)
    (hc : k.choose s v.world = .ok (.run o, k', w')) :
    serve number realm module s v =
      finish number realm module s o (starting number v k' w' o) := by
  have hchosen : chooseFor number s v =
      .done (.ok (.run o), put { v with world := w' } number k') := by
    simp only [chooseFor, hk, hc]
  rw [serve, Load.bind_of_done hchosen]
  exact Load.bind_of_done rfl

/-- The handler of a hook runs the text that is read at an output as the body of a module, or fails
if there is none to be read. The hook has come to a new state by then, and the files to a new
tree. -/
def Handles (number : Nat) (realm : Script.RealmRef) (module : Script.Ref) (v : Workspace)
    (k' : Hook) (t : FileTree) (s o : Path) : Prop :=
  ∃ v', v'.world.tree = t ∧ at? v' number = some k' ∧
    handler number realm module v =
      match t.readText o with
      | .ok text => execute number realm module s o text v'
      | .error cause => .done (.error (.error (.unreadable o cause)), v')

/-- Where a hook chooses an output its handler runs the text that is at the output then. -/
theorem handles_of_choose (hs : Load.filename realm module v = .done (.ok s, v))
    (hk : at? v number = some k) (hc : k.choose s v.world = .ok (.run o, k', w')) :
    Handles number realm module v k' w'.tree s o := by
  refine ⟨starting number v k' w' o, rfl, at?_put (v := { v with world := _ }) hk k', ?_⟩
  rw [handler_eq, Load.bind_of_done hs, serve_of_choose hk hc]
  cases ht : w'.tree.readText o with
  | ok text => exact Load.bind_congr (Load.bind_of_done (Load.readFile_of_ok ht))
  | error cause =>
    exact Load.bind_of_failed (Load.bind_of_failed (Load.readFile_of_error ht))

end Handler

/-! ## What is run -/

/-- What is at the output `o` that the hook remembers, when a load of `s` is answered by it.

It is the text that the latest run of the toolchain has left there. So it is the text that `s` was
compiled to last if and only if the latest run has left that text. If `c` was the last run to touch
`o`, for whatever source, it is the text that the source of `c` was compiled to. -/
structure Answered (emit : String → String) (H : List Deed) (s o : Path)
    (executed : Except Cause String) : Prop where
  exact : ∃ a p b, latestCompilation? s H = some a ∧ a.output = some p ∧
    latestTrial? H = some b ∧ executed = b.after.tree.readText o ∧
    ∀ text, a.before.tree.readText a.source = .ok text →
      a.after.tree.readText p = .ok (emit text)
  traced : ∀ later c earlier text, H = later ++ .tried c :: earlier → c.output = some o →
    (∀ b, .tried b ∈ later → b.Spares o) → c.before.tree.readText c.source = .ok text →
    executed = .ok (emit text)

/-- Whoever compiles what to which output: as long as nobody but the toolchain changes the texts of
outputs, a load that is answered from the cache runs what the latest run of the toolchain has left
at the remembered output. The handler runs it as the body of the module. -/
theorem answered (hw : Worked (.new settings toolchain) w₀ H k w) (hu : Untouched H)
    (hf : toolchain.Faithful emit) (hc : k.choose s w = .ok (.run o, k', w'))
    (hhit : k'.stats.cacheHits = k.stats.cacheHits + 1) :
    Answered emit H s o (w'.tree.readText o) ∧
      ∀ number realm module v, v.world = w → at? v number = some k →
        Load.filename realm module v = .done (.ok s, v) →
        Handles number realm module v k' w'.tree s o := by
  refine ⟨?_, fun number realm module v hv hk hs => handles_of_choose hs hk (hv ▸ hc)⟩
  rcases choose_cases hc with he | ⟨p, hp, he⟩
  · have hhits := (compile_keeps k s w).2.2
    rw [← he, hhit] at hhits
    exact absurd hhits (Nat.succ_ne_self _)
  · cases he
    have hcompiled := hw.provenance.2 s o hp
    obtain ⟨a, p, ha, hmem, hout⟩ := hcompiled.latest
    obtain ⟨b, hb⟩ := latestTrial?_isSome hcompiled
    have hleft : w.tree.readText o = b.after.tree.readText o := hw.left hu hcompiled hb
    refine ⟨⟨a, p, b, ha, hout, hb, hleft, fun text ht => hw.faithful hf hmem hout ht⟩,
      fun later c earlier text e ho hs ht => ?_⟩
    have hkept : w.tree.readText o = c.after.tree.readText o := hw.kept hu e ho hs
    exact hkept.trans (hw.faithful hf (by simp [e]) ho ht)

/-! ### Two sources with one output -/

/-- Compiles every source to the same file. -/
def joining : Toolchain := fun _ source _ w =>
  match w.tree.readText source >>= (w.tree.writeText "/out.js" · w.now) with
  | .ok t => (.ok (.ofPaths ["/out.js"]), { w with tree := t })
  | .error cause => (.error (.toolchain "tsc" cause), w)

theorem faithful_joining : joining.Faithful id := by
  intro n s config w e w' o text hrun ho ht
  simp only [joining, ht, bind, Except.bind] at hrun
  split at hrun
  · next t hwrite =>
    cases hrun
    obtain ⟨a, ha, rfl⟩ := exists_artifact_of_selectScript ho
    obtain rfl := List.mem_singleton.mp ha
    exact FileTree.readText_of_writeText hwrite
  · cases hrun

/-- A world with two sources. -/
def twoSources : World :=
  ⟨⟨[(["tsconfig.json".toList], .file "{}".toUTF8 ⟨0⟩ 0),
      (["a.ts".toList], .file "exports.v = 'a';".toUTF8 ⟨0⟩ 0),
      (["b.ts".toList], .file "exports.v = 'b';".toUTF8 ⟨0⟩ 0)], []⟩, [], ⟨1⟩, 1, #[]⟩

/-- A hook and a world when a source has been compiled and its output remembered. -/
def builtOnce (s : Path) (kw : Hook × World) : Hook × World :=
  let compiled := kw.1.compile s kw.2
  (compiled.2.1.remember s "/out.js", compiled.2.2)

/-- A hook that compiles every source to the same file, before it has compiled any. -/
def untried : Hook × World := (.new .standard joining, twoSources)

/-- The first source has been compiled. -/
def triedOne : Hook × World := builtOnce "/a.ts" untried

/-- Both sources have been compiled. -/
def triedBoth : Hook × World := builtOnce "/b.ts" triedOne

/-- What the hook has done by then. -/
def bothTried : List Deed :=
  [.remembered "/b.ts" "/out.js", .tried (triedOne.1.trial "/b.ts" triedOne.2),
    .remembered "/a.ts" "/out.js", .tried (untried.1.trial "/a.ts" untried.2)]

theorem Worked.builtOnce {kw : Hook × World} (hw : Worked start w₀ H kw.1 kw.2)
    (hnew : kw.1.cache.get? s = none)
    (ho : (kw.1.trial s kw.2).output = some ("/out.js" : Path)) :
    Worked start w₀ (.remembered s "/out.js" :: .tried (kw.1.trial s kw.2) :: H)
      (Hook.builtOnce s kw).1 (Hook.builtOnce s kw).2 := by
  have hc : kw.1.choose s kw.2 = .ok (kw.1.compile s kw.2) := by simp only [Hook.choose, hnew]
  exact .remembered (.compiled hw hc) (.inl ⟨_, List.mem_cons_self, rfl, ho⟩)

theorem worked_bothTried :
    Worked (.new .standard joining) twoSources bothTried triedBoth.1 triedBoth.2 := by
  refine .builtOnce (.builtOnce .idle rfl ?_) ?_ ?_ <;> decide +kernel

theorem known_triedBoth : triedBoth.1.cache.get? "/a.ts" = some ("/out.js" : Path) := by
  decide +kernel

/-- When the second source has been compiled, the first one is answered by the code of the
second. -/
theorem answered_bothTried :
    triedBoth.1.choose "/a.ts" triedBoth.2 =
      .ok (triedBoth.1.reuse "/a.ts" "/out.js" triedBoth.2) ∧
    Answered id bothTried "/a.ts" "/out.js" (.ok "exports.v = 'b';") := by
  have hfresh : triedBoth.2.tree.isModified "/a.ts" "/out.js" = .ok false := by decide +kernel
  have htext : triedBoth.2.tree.readText "/out.js" = .ok "exports.v = 'b';" := by decide +kernel
  have hc : triedBoth.1.choose "/a.ts" triedBoth.2 =
      .ok (triedBoth.1.reuse "/a.ts" "/out.js" triedBoth.2) := by
    simp only [choose, known_triedBoth, hfresh]
  have hu : Untouched bothTried := by
    intro later before after earlier e
    rcases later with _ | ⟨_, _ | ⟨_, _ | ⟨_, _ | ⟨_, _ | _⟩⟩⟩⟩ <;> cases e
  exact ⟨hc, htext ▸ (answered worked_bothTried hu faithful_joining hc rfl).1⟩

end Hook
end LoadHook
