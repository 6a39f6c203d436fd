import LoadHook.Hook.Handler
import LoadHook.Proofs.Path.Map

/-!
# The work of a hook

What a hook does is written down as a list of deeds, the latest first: it runs its toolchain for a
source, takes an output that it remembers, and remembers an output that was run. Loads are nested
in each other, so deeds of several loads may come in any order, and the world may change in
between.
-/
namespace LoadHook

/-- A run of the toolchain for a source, with the output that it came to. -/
structure Trial where
  source : Path
  output : Option Path
  before : World
  after : World

/-- What a hook has done, or what has happened around it. -/
inductive Deed where
  | tried (a : Trial)
  | reused (source output : Path) (w : World)
  | remembered (source output : Path)
  | elsewhere (before after : World)

namespace Deed

/-- The run of the toolchain that a deed is. -/
def trial? : Deed → Option Trial
  | .tried a => some a
  | _ => none

/-- The run of the toolchain that a deed is, if it has compiled a source. -/
def compilation? (s : Path) : Deed → Option Trial
  | .tried a => if a.source.same s && a.output.isSome then some a else none
  | _ => none

end Deed

/-- The latest run of the toolchain. -/
def latestTrial? (H : List Deed) : Option Trial := H.findSome? Deed.trial?

/-- The latest run of the toolchain that has compiled a source. -/
def latestCompilation? (s : Path) (H : List Deed) : Option Trial :=
  H.findSome? (Deed.compilation? s)

/-- An output has been chosen for a source. -/
def Chosen (s o : Path) (H : List Deed) : Prop :=
  (∃ a, .tried a ∈ H ∧ a.source = s ∧ a.output = some o) ∨ ∃ w, .reused s o w ∈ H

/-- A source has been compiled to an output. -/
def Compiled (s o : Path) (H : List Deed) : Prop :=
  ∃ a, .tried a ∈ H ∧ a.source.same s ∧ a.output = some o

/-- Nobody but the toolchain changes the texts of outputs. -/
def Untouched (H : List Deed) : Prop :=
  ∀ later before after earlier, H = later ++ .elsewhere before after :: earlier →
    ∀ s o, Compiled s o earlier → after.tree.readText o = before.tree.readText o

/-- A run of the toolchain leaves the text at a path as it was. -/
def Trial.Spares (o : Path) (a : Trial) : Prop :=
  a.after.tree.readText o = a.before.tree.readText o

/-- What a toolchain writes at the output for a source is determined by the text of the source. -/
def Toolchain.Faithful (toolchain : Toolchain) (emit : String → String) : Prop :=
  ∀ n s config w e w' o text, toolchain n s config w = (.ok e, w') → selectScript e s = .ok o →
    w.tree.readText s = .ok text → w'.tree.readText o = .ok (emit text)

/-! ## Compiling a source -/

/-- What the toolchain is called with when a source is compiled, and in which world, or why it is
not called. -/
def toolchainCall (runs : Nat) (source : Path) (configName : String) (debug : Bool) (w : World) :
    Except CompileError (Nat × Path × Config) × World :=
  match Config.resolve w source configName debug with
  | (.error e, w) => (.error e, w)
  | (.ok config, w) =>
    let w := if debug then announceOptions w config.options else w
    (.ok (runs + 1, source, config), w.report .info .compiler ("  Compiling " ++ source.text))

/-- What is made of the answer of the toolchain. -/
def settle (runs : Nat) (source : Path) (debug : Bool) :
    Except CompileError Emission × World → Attempt
  | (.error e, w) => ⟨.error e, runs + 1, w⟩
  | (.ok emission, w) =>
    ⟨selectScript emission source, runs + 1, if debug then announceEmission w emission else w⟩

/-- Compiling a source is calling the toolchain and selecting a script from what it answers. -/
theorem compileFile_eq (t : Toolchain) (runs : Nat) (source : Path) (configName : String)
    (debug : Bool) (w : World) :
    compileFile t runs source configName debug w =
      match toolchainCall runs source configName debug w with
      | (.error e, w) => ⟨.error e, runs, w⟩
      | (.ok (n, s, c), w) => settle runs source debug (t n s c w) := by
  rw [compileFile, toolchainCall]
  generalize Config.resolve w source configName debug = resolved
  obtain ⟨config, w⟩ := resolved
  cases config with
  | error e => rfl
  | ok config => rfl

/-- The script that is selected is one of the files that were emitted. -/
theorem exists_artifact_of_selectScript {e : Emission} {source p : Path}
    (hp : selectScript e source = .ok p) : ∃ a ∈ e.artifacts, a.path = p := by
  have hscript : p ∈ e.scripts := by
    unfold selectScript at hp
    split at hp
    · next q hq =>
      cases hp
      rcases Option.or_eq_some_iff.mp hq with hsame | ⟨-, hlast⟩
      · exact List.mem_reverse.mp (List.mem_of_find?_eq_some hsame)
      · exact List.mem_of_getLast? hlast
    · cases hp
  obtain ⟨a, ha, rfl⟩ := List.mem_map.mp hscript
  exact ⟨a, (List.mem_filter.mp ha).1, rfl⟩

namespace Hook

/-- The output that is run, if one is. -/
def Choice.output? : Choice → Option Path
  | .run o => some o
  | .skip => none

/-- The run of the toolchain in a compilation. -/
def trial (k : Hook) (s : Path) (w : World) : Trial :=
  ⟨s, (k.compile s w).1.output?, w, (k.compile s w).2.2⟩

/-- The states that a hook comes to by its deeds. -/
inductive Worked (start : Hook) (w₀ : World) : List Deed → Hook → World → Prop
  | idle : Worked start w₀ [] start w₀
  | compiled {H : List Deed} {k : Hook} {w : World} {s : Path} : Worked start w₀ H k w →
      k.choose s w = .ok (k.compile s w) →
      Worked start w₀ (.tried (k.trial s w) :: H) (k.compile s w).2.1 (k.compile s w).2.2
  | reused {H : List Deed} {k : Hook} {w : World} {s o : Path} : Worked start w₀ H k w →
      k.cache.get? s = some o → k.choose s w = .ok (k.reuse s o w) →
      Worked start w₀ (.reused s o w :: H) (k.reuse s o w).2.1 (k.reuse s o w).2.2
  | remembered {H : List Deed} {k : Hook} {w : World} {s o : Path} : Worked start w₀ H k w →
      Chosen s o H → Worked start w₀ (.remembered s o :: H) (k.remember s o) w
  | elsewhere {H : List Deed} {k : Hook} {w : World} (w' : World) : Worked start w₀ H k w →
      Worked start w₀ (.elsewhere w w' :: H) k w'

variable {start k k' : Hook} {w₀ w w' : World} {H : List Deed} {s o : Path} {c : Choice}
  {emit : String → String} {toolchain : Toolchain}

/-- A hook compiles a source, or takes the output that it remembers. -/
theorem choose_cases (hc : k.choose s w = .ok (c, k', w')) :
    (c, k', w') = k.compile s w ∨
      ∃ o, k.cache.get? s = some o ∧ (c, k', w') = k.reuse s o w := by
  unfold choose at hc
  split at hc
  · exact .inl (Except.ok.inj hc).symm
  · next o ho =>
    split at hc
    · cases hc
    · exact .inl (Except.ok.inj hc).symm
    · exact .inr ⟨o, ho, (Except.ok.inj hc).symm⟩

/-- Whatever a hook chooses is one of its deeds. -/
theorem Worked.choose (hw : Worked start w₀ H k w) (hc : k.choose s w = .ok (c, k', w')) :
    ∃ d, Worked start w₀ (d :: H) k' w' ∧ ∀ o, c = .run o → Chosen s o (d :: H) := by
  rcases choose_cases hc with he | ⟨o, ho, he⟩
  · rw [he] at hc
    have hd := hw.compiled hc
    rw [← he] at hd
    refine ⟨_, hd, ?_⟩
    rintro o rfl
    refine .inl ⟨_, List.mem_cons_self, rfl, ?_⟩
    rw [trial, ← he]
    rfl
  · rw [he] at hc
    have hd := hw.reused ho hc
    rw [← he] at hd
    refine ⟨_, hd, ?_⟩
    rintro p rfl
    cases he
    exact .inr ⟨w, List.mem_cons_self⟩

/-! ## Compilations -/

/-- The attempt that a compilation makes. -/
def attempt (k : Hook) (s : Path) (w : World) : Attempt :=
  compileFile k.toolchain k.runs s k.settings.configFileName (k.settings.debugEnabled w) w

theorem compile_of_ok (hr : (k.attempt s w).result = .ok o) :
    k.compile s w = (.run o, { k with
      runs := (k.attempt s w).runs
      stats := { k.stats with compilations := k.stats.compilations + 1 } },
      (k.attempt s w).world) := by
  unfold compile
  rw [← attempt]
  simp only [hr]

theorem compile_of_error {e : CompileError} (hr : (k.attempt s w).result = .error e) :
    k.compile s w = (.skip, { k with
      runs := (k.attempt s w).runs
      stats := { k.stats with aborted := k.stats.aborted + 1 } },
      (k.attempt s w).world.report .error .hook e.message) := by
  unfold compile
  rw [← attempt]
  simp only [hr]

/-- A compilation runs the output of its attempt, or reports its failure. -/
theorem compile_cases (k : Hook) (s : Path) (w : World) :
    (∃ o stats, (k.attempt s w).result = .ok o ∧ stats.cacheHits = k.stats.cacheHits ∧
      k.compile s w = (.run o, { k with runs := (k.attempt s w).runs, stats := stats },
        (k.attempt s w).world)) ∨
    ∃ text stats, stats.cacheHits = k.stats.cacheHits ∧
      k.compile s w = (.skip, { k with runs := (k.attempt s w).runs, stats := stats },
        (k.attempt s w).world.report .error .hook text) := by
  cases hr : (k.attempt s w).result with
  | ok o =>
    exact .inl ⟨o, { k.stats with compilations := k.stats.compilations + 1 }, rfl, rfl,
      compile_of_ok hr⟩
  | error e =>
    exact .inr ⟨e.message, { k.stats with aborted := k.stats.aborted + 1 }, rfl,
      compile_of_error hr⟩

/-- A compilation leaves the toolchain, what is remembered, and the count of fresh outputs. -/
theorem compile_keeps (k : Hook) (s : Path) (w : World) :
    (k.compile s w).2.1.toolchain = k.toolchain ∧ (k.compile s w).2.1.cache = k.cache ∧
      (k.compile s w).2.1.stats.cacheHits = k.stats.cacheHits := by
  rcases compile_cases k s w with ⟨o, stats, -, hh, he⟩ | ⟨text, stats, hh, he⟩ <;> rw [he]
  · exact ⟨rfl, rfl, hh⟩
  · exact ⟨rfl, rfl, hh⟩

/-- Whatever a hook chooses, it remembers what it did. -/
theorem choose_keeps (hc : k.choose s w = .ok (c, k', w')) : k'.cache = k.cache := by
  rcases choose_cases hc with he | ⟨o, -, he⟩
  · rw [show k' = (k.compile s w).2.1 by rw [← he]]
    exact (compile_keeps k s w).2.1
  · cases he
    rfl

theorem tree_announceEmission (w : World) (e : Emission) :
    (announceEmission w e).tree = w.tree := by
  have hfold (as : List Artifact) (f : Artifact → String) (w : World) :
      (as.foldl (fun w a => w.report .info .compiler (f a)) w).tree = w.tree := by
    induction as generalizing w with
    | nil => rfl
    | cons a as ih => exact ih _
  simp [announceEmission, hfold]

theorem tree_resolve (w : World) (s : Path) (name : String) (debug : Bool) :
    (Config.resolve w s name debug).2.tree = w.tree := by
  unfold Config.resolve
  split
  · rfl
  · cases debug <;> rfl

theorem tree_settle (n : Nat) (s : Path) (debug : Bool)
    (answered : Except CompileError Emission × World) :
    (settle n s debug answered).world.tree = answered.2.tree := by
  obtain ⟨_ | e, w⟩ := answered
  · rfl
  · cases debug
    · rfl
    · exact tree_announceEmission w e

/-- A compilation fails before the toolchain has run, and no file has changed, or it comes to what
is selected from the answer of the toolchain, which leaves the files. -/
theorem compileFile_cases (toolchain : Toolchain) (n : Nat) (s : Path) (name : String)
    (debug : Bool) (w : World) :
    (∃ e, (compileFile toolchain n s name debug w).result = .error e ∧
      (compileFile toolchain n s name debug w).world.tree = w.tree) ∨
    ∃ config w₁, w₁.tree = w.tree ∧
      compileFile toolchain n s name debug w =
        settle n s debug (toolchain (n + 1) s config w₁) := by
  have htree := tree_resolve w s name debug
  rw [compileFile_eq, toolchainCall]
  generalize Config.resolve w s name debug = resolved at htree
  obtain ⟨e | config, w₁⟩ := resolved
  · exact .inl ⟨e, rfl, htree⟩
  · refine .inr ⟨config, _, ?_, rfl⟩
    rw [World.tree_report, ← htree]
    cases debug <;> rfl

/-- A faithful toolchain leaves the compiled text of the source at the output. -/
theorem compileFile_of_faithful (hf : toolchain.Faithful emit) {n : Nat} {name text : String}
    {debug : Bool} (ho : (compileFile toolchain n s name debug w).result = .ok o)
    (ht : w.tree.readText s = .ok text) :
    (compileFile toolchain n s name debug w).world.tree.readText o = .ok (emit text) := by
  rcases compileFile_cases toolchain n s name debug w with
    ⟨e, hr, -⟩ | ⟨config, w₁, hw₁, he⟩
  · cases ho.symm.trans hr
  · rw [he] at ho
    rw [he, tree_settle]
    cases hrun : toolchain (n + 1) s config w₁ with
    | mk answer w₂ =>
      rw [hrun] at ho
      cases answer with
      | error e => cases ho
      | ok e => exact hf _ _ _ _ _ _ _ _ hrun ho (hw₁ ▸ ht)

/-- A faithful toolchain leaves the compiled text of the source at the output of a hook. -/
theorem trial_of_faithful (hf : k.toolchain.Faithful emit) {text : String}
    (ho : (k.trial s w).output = some o) (ht : w.tree.readText s = .ok text) :
    (k.trial s w).after.tree.readText o = .ok (emit text) := by
  rcases compile_cases k s w with ⟨p, stats, hr, -, he⟩ | ⟨text, stats, -, he⟩
  · simp only [trial, he, Choice.output?, Option.some.injEq] at ho ⊢
    subst ho
    exact compileFile_of_faithful hf hr ht
  · simp [trial, he, Choice.output?] at ho

/-! ## Hooks in their places -/

section Places

variable {number m : Nat} {v : Workspace}

theorem at?_put (hk : at? v number = some k) (k' : Hook) :
    at? (put v number k') number = some k' := by
  simp only [at?, put] at hk ⊢
  rw [Array.getElem?_modify, if_pos rfl, hk]
  rfl

theorem at?_put_of_ne (hm : m ≠ number) (k : Hook) : at? (put v m k) number = at? v number := by
  simp only [at?, put]
  rw [Array.getElem?_modify, if_neg hm]

end Places

end Hook
end LoadHook
