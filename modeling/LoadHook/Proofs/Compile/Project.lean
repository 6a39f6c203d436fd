import LoadHook.Compile.Toolchain
import LoadHook.Proofs.Files.Removal
import LoadHook.Proofs.Path.Pieces
import Mathlib.Data.Nat.Digits.Lemmas

/-!
# The project of one compilation

The compiler is given a project that is written for one source. It is removed as soon as the
compiler is done, or could not be started, and before anything else is made of that. So whatever
the compiler does, nothing is left of the project; and how the removal goes does not show in the
result.
-/
namespace LoadHook.Tsc

variable {runner : Runner} {program : Option Path} {run : Nat} {source : Path} {config : Config}
  {w : World} {t left : FileTree} {p : Path} {cause : Cause}

/-! ## The steps of a compilation -/

/-- The tree with the project written. -/
def writeProject (source : Path) (config : Config) (w : World) : Except Cause FileTree :=
  w.tree.writeText (projectPath w config.dir source) (config.options.project source).compact w.now

/-- How the compiler is started. -/
def invocation (program : Option Path) (source : Path) (config : Config) (w : World) : Invocation :=
  ⟨locate w.tree program config.dir, arguments (projectPath w config.dir source), config.dir⟩

/-- What the compiler comes to, and the files as it leaves them. -/
def compiled (runner : Runner) (program : Option Path) (source : Path) (config : Config) (w : World)
    (t : FileTree) : Except Cause Finished × FileTree :=
  runner { w with tree := t } (invocation program source config w)

@[simp] theorem tree_warnLines (w : World) (lines : List (List Char)) :
    (warnLines w lines).tree = w.tree := by
  induction lines generalizing w with
  | nil => rfl
  | cons line rest ih => exact ih _

@[simp] theorem tree_digest (w : World) (program : Path) (f : Finished) :
    (digest w program f).2.tree = w.tree := by
  simp only [digest]
  split <;> simp

theorem toolchain_of_unwritten (h : writeProject source config w = .error cause) :
    toolchain runner program run source config w =
      (.error (.projectWrite (projectPath w config.dir source) cause), w) := by
  unfold writeProject at h
  simp only [toolchain, h]

/-- What is made of the outcome of the compiler. -/
theorem fst_toolchain (h : writeProject source config w = .ok t) :
    (toolchain runner program run source config w).1 =
      match (compiled runner program source config w t).1 with
      | .error cause => .error (.toolchain (invocation program source config w).program.text cause)
      | .ok f => .ok (Emission.ofListing (Text.decodeLossy f.stdout)).1 := by
  unfold writeProject at h
  simp only [toolchain, h, compiled, invocation]
  generalize runner _ _ = ran
  obtain ⟨outcome, left⟩ := ran
  cases outcome <;> rfl

/-- The files that are left are those that the compiler leaves, without the project. -/
theorem tree_toolchain (h : writeProject source config w = .ok t) :
    (toolchain runner program run source config w).2.tree =
      (removeProject { w with tree := (compiled runner program source config w t).2 }
        (projectPath w config.dir source)).tree := by
  unfold writeProject at h
  simp only [toolchain, h, compiled, invocation]
  generalize runner _ _ = ran
  obtain ⟨outcome, left⟩ := ran
  cases outcome with
  | error cause => rfl
  | ok f => exact tree_digest _ _ _

/-! ## The project is swept away -/

/-- A project has a name of its own in the directory that it is written for. -/
theorem exists_projectPath (w : World) (dir source : Path) :
    ∃ s : Name, '/' ∉ s ∧ s ≠ [] ∧ ¬FileTree.IsDots s ∧
      projectPath w dir source = dir / (⟨s⟩ : Path) := by
  have hdigits : '/' ∉ Nat.toDigits 10 w.pid := fun h =>
    absurd (Nat.isDigit_of_mem_toDigits (by decide) (by decide) h) (by decide)
  have hstem : '/' ∉ source.fileStem.getD [] := Path.not_mem_fileStem source
  exact ⟨_, by simp [hdigits, hstem], by simp, by simp [FileTree.IsDots, FileTree.upName], rfl⟩

/-- The path of a project ends in that name. -/
theorem endsInName_projectPath (w : World) (dir source : Path) :
    FileTree.EndsInName (projectPath w dir source) := by
  obtain ⟨s, hslash, hempty, hdots, hproject⟩ := exists_projectPath w dir source
  obtain ⟨hrel, hname⟩ := Path.pieces_of_not_mem hslash
  obtain ⟨pieces, hpieces, -⟩ := Path.exists_pieces_join dir hrel
  rw [hname] at hpieces
  obtain ⟨front, hfront⟩ := FileTree.namesOf_concat hempty hpieces
  exact ⟨front, s, hproject ▸ hfront, hdots⟩

theorem swept_removeProject (hp : FileTree.EndsInName p) (h : t.Removable p) :
    t.Swept (removeProject { w with tree := t } p).tree p := by
  unfold removeProject
  split
  · next hremove => exact FileTree.swept_of_removeFile hp hremove
  · next cause hremove =>
    refine FileTree.swept_of_vacant (h.resolve_right fun ⟨u, hu⟩ => ?_)
    cases hremove.symm.trans hu

theorem swept_toolchain (h : writeProject source config w = .ok t)
    (hr : (compiled runner program source config w t).2.Removable
      (projectPath w config.dir source)) :
    (compiled runner program source config w t).2.Swept
      (toolchain runner program run source config w).2.tree (projectPath w config.dir source) := by
  rw [tree_toolchain h]
  exact swept_removeProject (endsInName_projectPath w config.dir source) hr

/-! ## The result -/

theorem fst_toolchain_of_error (h : writeProject source config w = .ok t)
    (hc : (compiled runner program source config w t).1 = .error cause) :
    (toolchain runner program run source config w).1 =
      .error (.toolchain (invocation program source config w).program.text cause) := by
  rw [fst_toolchain h, hc]

theorem fst_toolchain_of_ok {f : Finished} (h : writeProject source config w = .ok t)
    (hc : (compiled runner program source config w t).1 = .ok f) :
    (toolchain runner program run source config w).1 =
      .ok (Emission.ofListing (Text.decodeLossy f.stdout)).1 := by
  rw [fst_toolchain h, hc]

/-- A compilation fails if the project cannot be written or the compiler cannot be started, and
then only. -/
theorem fst_toolchain_fails_iff :
    (∃ e, (toolchain runner program run source config w).1 = .error e) ↔
      (∃ cause, writeProject source config w = .error cause) ∨
        ∃ t cause, writeProject source config w = .ok t ∧
          (compiled runner program source config w t).1 = .error cause := by
  cases hwrite : writeProject source config w with
  | error cause =>
    rw [toolchain_of_unwritten hwrite]
    exact ⟨fun _ => .inl ⟨cause, rfl⟩, fun _ => ⟨_, rfl⟩⟩
  | ok t =>
    cases hc : (compiled runner program source config w t).1 with
    | error cause =>
      exact ⟨fun _ => .inr ⟨t, cause, rfl, hc⟩, fun _ => ⟨_, fst_toolchain_of_error hwrite hc⟩⟩
    | ok f =>
      rw [fst_toolchain_of_ok hwrite hc]
      refine ⟨fun ⟨e, he⟩ => (nomatch he), ?_⟩
      rintro (⟨cause, h⟩ | ⟨t', cause, h, hcause⟩)
      · cases h
      · cases h
        cases hc.symm.trans hcause

/-- What compiling a source with the compiler proper comes to, whatever the compiler does.

Nothing is found at the path of the project afterwards. If the project cannot be written, that is
the result, nothing has changed, and it would be the same with any other compiler: none is started.
Otherwise every other place holds what it held when the compiler was done. The result is an error
exactly if the project cannot be written or the compiler cannot be started; otherwise it is what the
compiler has listed on its standard output, however it ended and whatever else it said. -/
structure ProjectLaw (runner : Runner) (program : Option Path) (run : Nat) (source : Path)
    (config : Config) (w : World) : Prop where
  vacant : (toolchain runner program run source config w).2.tree.Vacant
    (projectPath w config.dir source)
  unwritten : ∀ cause, writeProject source config w = .error cause → ∀ other,
    toolchain other program run source config w =
      (.error (.projectWrite (projectPath w config.dir source) cause), w)
  swept : ∀ t, writeProject source config w = .ok t →
    (compiled runner program source config w t).2.Swept
      (toolchain runner program run source config w).2.tree (projectPath w config.dir source)
  unstarted : ∀ t cause, writeProject source config w = .ok t →
    (compiled runner program source config w t).1 = .error cause →
    (toolchain runner program run source config w).1 =
      .error (.toolchain (invocation program source config w).program.text cause)
  emits : ∀ t f, writeProject source config w = .ok t →
    (compiled runner program source config w t).1 = .ok f →
    (toolchain runner program run source config w).1 =
      .ok (Emission.ofListing (Text.decodeLossy f.stdout)).1
  fails_iff : (∃ e, (toolchain runner program run source config w).1 = .error e) ↔
    (∃ cause, writeProject source config w = .error cause) ∨
      ∃ t cause, writeProject source config w = .ok t ∧
        (compiled runner program source config w t).1 = .error cause

/-- The project leaves no trace. -/
theorem project_law (runner : Runner) (program : Option Path) (run : Nat) (source : Path)
    (config : Config) (w : World)
    (hvacant : w.tree.Vacant (projectPath w config.dir source))
    (hremovable : ∀ t, writeProject source config w = .ok t →
      (compiled runner program source config w t).2.Removable
        (projectPath w config.dir source)) :
    ProjectLaw runner program run source config w where
  vacant := by
    cases hwrite : writeProject source config w with
    | error cause =>
      rw [toolchain_of_unwritten hwrite]
      exact hvacant
    | ok t => exact (swept_toolchain hwrite (hremovable t hwrite)).vacant
  unwritten _ hwrite _ := toolchain_of_unwritten hwrite
  swept t hwrite := swept_toolchain hwrite (hremovable t hwrite)
  unstarted _ _ hwrite hc := fst_toolchain_of_error hwrite hc
  emits _ _ hwrite hc := fst_toolchain_of_ok hwrite hc
  fails_iff := fst_toolchain_fails_iff

/-- A compiler that lists the script that it writes and ends with an error. -/
def grumbling : Runner := fun w _ =>
  (.ok ⟨Text.encode "TSFILE: /a.js\n", Text.encode "a.ts(1,5): error\n", .exited 2⟩,
    w.tree.put ["a.js".toList] (.file .empty w.now 0))

def emptyWorld : World := ⟨⟨[], []⟩, [], ⟨0⟩, 1, #[]⟩

def rootConfig : Config := ⟨"/tsconfig.json", "/", .empty⟩

/-- The script is there, and the project is not. -/
theorem project_law_grumbling :
    (toolchain grumbling none 1 "/a.ts" rootConfig emptyWorld).1 = .ok (.ofPaths ["/a.js"]) ∧
      (toolchain grumbling none 1 "/a.ts" rootConfig emptyWorld).2.tree.Vacant
        "/.tshook-1-a.tsconfig.json" := by
  have hwrite : writeProject "/a.ts" rootConfig emptyWorld =
      .ok (emptyWorld.tree.put [".tshook-1-a.tsconfig.json".toList]
        (.file (Text.encode (rootConfig.options.project "/a.ts").compact) ⟨0⟩
          FileTree.plainMode)) := by rfl
  have hlaw : ProjectLaw grumbling none 1 "/a.ts" rootConfig emptyWorld := by
    refine project_law grumbling none 1 "/a.ts" rootConfig emptyWorld ?_ fun t ht => ?_
    · intro place node h
      have hmissing : emptyWorld.tree.locate (projectPath emptyWorld rootConfig.dir "/a.ts") false =
          .ok (.missing [] ".tshook-1-a.tsconfig.json".toList) := by rfl
      cases hmissing.symm.trans h
    · cases hwrite.symm.trans ht
      exact .inr ⟨_, rfl⟩
  have hpath : projectPath emptyWorld rootConfig.dir "/a.ts" = "/.tshook-1-a.tsconfig.json" := by
    decide +kernel
  have hlisting : (Emission.ofListing (Text.decodeLossy (Text.encode "TSFILE: /a.js\n"))).1 =
      .ofPaths ["/a.js"] := by decide +kernel
  refine ⟨?_, hpath ▸ hlaw.vacant⟩
  rw [hlaw.emits _ _ hwrite rfl]
  exact congrArg _ hlisting

end LoadHook.Tsc
