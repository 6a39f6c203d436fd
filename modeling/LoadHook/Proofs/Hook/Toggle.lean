import LoadHook.Compile.StandIn
import LoadHook.Proofs.Hook.Work
import LoadHook.Proofs.Json.Reading

/-!
# The debug toggle

Whether a hook is told to report what it does is the value of an environment variable. Two worlds
that differ in this variable and in the log lie beside each other. A compilation comes to the same
in both of them if its toolchain does, and with the toggle on it writes more to the log.
-/
namespace LoadHook

/-- Two worlds that differ in nothing but a variable and the log. -/
structure World.Beside (var : String) (w w' : World) : Prop where
  tree : w'.tree = w.tree
  env : ∀ name, name ≠ var → w'.envValue? name = w.envValue? name
  now : w'.now = w.now
  pid : w'.pid = w.pid

/-- The log of the one world is in that of the other, in order. -/
def World.Quieter (w w' : World) : Prop := w.log.toList.Sublist w'.log.toList

/-- Two worlds, `v` and `v'`, in which the same has been logged since `w` and `w'`. -/
structure World.Together (var : String) (w w' v v' : World) : Prop where
  beside : v.Beside var v'
  log : ∃ events, v.log = w.log ++ events ∧ v'.log = w'.log ++ events

/-- A toolchain that looks neither at a variable nor at what has been logged. -/
structure Toolchain.Heedless (var : String) (t : Toolchain) : Prop where
  result : ∀ n s c w w', w.Beside var w' → (t n s c w').1 = (t n s c w).1
  world : ∀ n s c w w', w.Beside var w' → World.Together var w w' (t n s c w).2 (t n s c w').2

namespace World

variable {var : String} {w w' w₁ w₂ : World}

namespace Beside

theorem refl (w : World) : w.Beside var w := ⟨rfl, fun _ _ => rfl, rfl, rfl⟩

theorem symm (h : w.Beside var w') : w'.Beside var w :=
  ⟨h.tree.symm, fun name hname => (h.env name hname).symm, h.now.symm, h.pid.symm⟩

theorem trans (h₁ : w.Beside var w₁) (h₂ : w₁.Beside var w₂) : w.Beside var w₂ where
  tree := h₂.tree.trans h₁.tree
  env name hname := (h₂.env name hname).trans (h₁.env name hname)
  now := h₂.now.trans h₁.now
  pid := h₂.pid.trans h₁.pid

/-- A line of the log makes no difference. -/
theorem reported (w : World) (level : Level) (source : Source) (text : String) :
    w.Beside var (w.report level source text) := ⟨rfl, fun _ _ => rfl, rfl, rfl⟩

/-- Neither do lines in both logs. -/
theorem report (h : w.Beside var w') (level : Level) (source : Source) (text text' : String) :
    (w.report level source text).Beside var (w'.report level source text') :=
  (reported w _ _ _).symm.trans (h.trans (reported w' _ _ _))

/-- Neither does what is told only if a toggle is on. -/
theorem told {f : World → World} (hf : ∀ w : World, w.Beside var (f w)) (h : w.Beside var w')
    (debug debug' : Bool) :
    (if debug then f w else w).Beside var (if debug' then f w' else w') := by
  have hone : ∀ (debug : Bool) (w : World), w.Beside var (if debug then f w else w) := by
    intro debug w
    cases debug with
    | true => exact hf w
    | false => exact refl w
  exact (hone debug w).symm.trans (h.trans (hone debug' w'))

/-- The files may change in both. -/
theorem withTree (h : w.Beside var w') (t : FileTree) :
    World.Beside var { w with tree := t } { w' with tree := t } := ⟨rfl, h.env, h.now, h.pid⟩

/-- The variable makes no difference. -/
theorem setVariable (w : World) (value : Option String) :
    w.Beside var (w.setVariable var value) := by
  refine ⟨rfl, fun name hname => ?_, rfl, rfl⟩
  have hothers : (w.env.filter fun e => e.1 != var).lookup name = w.env.lookup name := by
    have hlookup := @Json.lookup_filter _ name (fun k => k != var) w.env
    rwa [if_pos (bne_iff_ne.mpr hname)] at hlookup
  have hfirst : (name == var) = false := beq_eq_false_iff_ne.mpr hname
  cases value with
  | none => exact hothers
  | some x => simpa [World.setVariable, World.envValue?, List.lookup_cons, hfirst] using hothers

end Beside

namespace Quieter

theorem refl (w : World) : w.Quieter w := List.Sublist.refl _

theorem trans (h₁ : w.Quieter w₁) (h₂ : w₁.Quieter w₂) : w.Quieter w₂ := List.Sublist.trans h₁ h₂

/-- A line more makes a world louder. -/
theorem reported (w : World) (level : Level) (source : Source) (text : String) :
    w.Quieter (w.report level source text) := by
  rw [Quieter, log_report, Array.toList_push]
  exact List.sublist_append_left _ _

theorem report (h : w.Quieter w') (level : Level) (source : Source) (text : String) :
    (w.report level source text).Quieter (w'.report level source text) := by
  rw [Quieter, log_report, log_report, Array.toList_push, Array.toList_push]
  exact List.Sublist.append h (List.Sublist.refl _)

/-- What is told only if a toggle is on makes the world louder in which it is on. -/
theorem told {f : World → World} (hself : ∀ w : World, w.Quieter (f w))
    (hboth : ∀ w w' : World, w.Quieter w' → (f w).Quieter (f w')) (h : w.Quieter w')
    {debug debug' : Bool} (hdebug : debug → debug') :
    (if debug then f w else w).Quieter (if debug' then f w' else w') := by
  cases debug with
  | true => simpa [hdebug rfl] using hboth w w' h
  | false =>
    cases debug' with
    | true => exact h.trans (hself w')
    | false => exact h

end Quieter

namespace Together

variable {v v' : World}

theorem start (h : w.Beside var w') : Together var w w' w w' :=
  ⟨h, #[], (Array.append_empty).symm, (Array.append_empty).symm⟩

theorem report (h : Together var w w' v v') (level : Level) (source : Source) (text : String) :
    Together var w w' (v.report level source text) (v'.report level source text) := by
  obtain ⟨events, hv, hv'⟩ := h.log
  refine ⟨h.beside.report _ _ _ _, events.push ⟨level, source, text⟩, ?_, ?_⟩
  · rw [log_report, hv, Array.push_append]
  · rw [log_report, hv', Array.push_append]

theorem withTree (h : Together var w w' v v') (t : FileTree) :
    Together var w w' { v with tree := t } { v' with tree := t } :=
  ⟨h.beside.withTree t, h.log⟩

end Together
end World

/-! ## Two compilations side by side -/

variable {var : String} {t : Toolchain} {runs : Nat} {source : Path} {configName : String}
  {debug debug' : Bool} {w w' : World}

/-- Two attempts that come to the same. -/
structure Attempt.Beside (var : String) (a a' : Attempt) : Prop where
  result : a'.result = a.result
  runs : a'.runs = a.runs
  world : a.world.Beside var a'.world

/-- A relation of worlds that lie beside each other, kept by a line in both logs, by a line that is
told only where a toggle is on, and by whatever is logged in both. -/
structure World.Steady (var : String) (debug debug' : Bool) (R : World → World → Prop) : Prop where
  beside : ∀ {w w'}, R w w' → w.Beside var w'
  report : ∀ {w w'} level source text, R w w' →
    R (w.report level source text) (w'.report level source text)
  told : ∀ {w w'} level source text, R w w' →
    R (if debug then w.report level source text else w)
      (if debug' then w'.report level source text else w')
  together : ∀ {w w' v v'}, R w w' → World.Together var w w' v v' → R v v'

theorem World.steady_beside (var : String) (debug debug' : Bool) :
    Steady var debug debug' (Beside var) where
  beside h := h
  report _ _ _ h := h.report _ _ _ _
  told level source text h :=
    h.told (f := fun w => w.report level source text) (fun w => .reported w _ _ _) debug debug'
  together _ h := h.beside

/-- Where the toggle is on, the log is the longer one. -/
theorem World.steady_quieter (var : String) (hdebug : debug → debug') :
    Steady var debug debug' fun w w' => w.Beside var w' ∧ w.Quieter w' where
  beside := And.left
  report _ _ _ h := ⟨h.1.report _ _ _ _, h.2.report _ _ _⟩
  told level source text h :=
    ⟨(steady_beside var debug debug').told level source text h.1,
      .told (f := fun w => w.report level source text) (fun w => .reported w _ _ _)
        (fun _ _ h => h.report _ _ _) h.2 hdebug⟩
  together h hboth := by
    obtain ⟨events, hv, hv'⟩ := hboth.log
    refine ⟨hboth.beside, ?_⟩
    rw [Quieter, hv, hv', Array.toList_append, Array.toList_append]
    exact List.Sublist.append h.2 (List.Sublist.refl _)

namespace World.Steady

variable {R : World → World → Prop} (hR : World.Steady var debug debug' R)
include hR

/-- A line for each of a list is told line by line. -/
theorem told_foldl {α : Type} (level : Level) (source : Source) (text : α → String) (xs : List α)
    (h : R w w') :
    R (if debug then xs.foldl (fun w x => w.report level source (text x)) w else w)
      (if debug' then xs.foldl (fun w x => w.report level source (text x)) w' else w') := by
  induction xs generalizing w w' with
  | nil => simpa only [List.foldl_nil, ite_self] using h
  | cons x xs ih =>
    have hrest := ih (hR.told level source (text x) h)
    cases debug <;> cases debug' <;> exact hrest

theorem announceEmission (h : R w w') (e : Emission) :
    R (if debug then LoadHook.announceEmission w e else w)
      (if debug' then LoadHook.announceEmission w' e else w') := by
  have hlines := hR.told_foldl .info .compiler
    (fun a : Artifact => "  Writing " ++ a.path.text ++ " (" ++ a.kind.name ++ ")") e.artifacts h
  cases debug <;> cases debug'
  case false.false => exact h
  all_goals exact hR.told .info .compiler _ hlines

theorem announce (h : R w w') (source path : Path) :
    R (if debug then Config.announce w source path else w)
      (if debug' then Config.announce w' source path else w') := by
  have hlines := hR.told .info .config ("  configFileName: " ++ path.text)
    (hR.told .info .config ("  searchPath: " ++ (Config.searchDir source).text)
      (hR.told .info .config ("Compiling " ++ source.text) h))
  cases debug <;> cases debug' <;> exact hlines

theorem resolve (h : R w w') (source : Path) (configName : String) :
    (Config.resolve w' source configName debug').1 = (Config.resolve w source configName debug).1 ∧
      R (Config.resolve w source configName debug).2
        (Config.resolve w' source configName debug').2 := by
  rw [Config.resolve, Config.resolve, (hR.beside h).tree]
  cases Config.pathFor? w.tree source configName with
  | none => exact ⟨rfl, h⟩
  | some path => exact ⟨rfl, hR.announce h source path⟩

/-- The toolchain is called with the same, or not at all for the same reason. -/
theorem toolchainCall (h : R w w') (runs : Nat) (source : Path) (configName : String) :
    (LoadHook.toolchainCall runs source configName debug' w').1 =
        (LoadHook.toolchainCall runs source configName debug w).1 ∧
      R (LoadHook.toolchainCall runs source configName debug w).2
        (LoadHook.toolchainCall runs source configName debug' w').2 := by
  obtain ⟨hresult, hworld⟩ := hR.resolve h source configName
  rw [LoadHook.toolchainCall, LoadHook.toolchainCall]
  generalize Config.resolve w source configName debug = resolved at *
  generalize Config.resolve w' source configName debug' = resolved' at *
  obtain ⟨config, w⟩ := resolved
  obtain ⟨config', w'⟩ := resolved'
  obtain rfl : config' = config := hresult
  cases config' with
  | error e => exact ⟨rfl, hworld⟩
  | ok config => exact ⟨rfl, hR.report _ _ _ (hR.told _ _ _ hworld)⟩

/-- A compilation comes to the same, and the relation is kept. -/
theorem compileFile (ht : t.Heedless var) (h : R w w') (runs : Nat) (source : Path)
    (configName : String) :
    (LoadHook.compileFile t runs source configName debug w).Beside var
        (LoadHook.compileFile t runs source configName debug' w') ∧
      R (LoadHook.compileFile t runs source configName debug w).world
        (LoadHook.compileFile t runs source configName debug' w').world := by
  have hboth {a a' : Attempt} (hresult : a'.result = a.result) (hruns : a'.runs = a.runs)
      (hworld : R a.world a'.world) : a.Beside var a' ∧ R a.world a'.world :=
    ⟨⟨hresult, hruns, hR.beside hworld⟩, hworld⟩
  obtain ⟨hcall, hworld⟩ := hR.toolchainCall h runs source configName
  rw [compileFile_eq, compileFile_eq]
  generalize LoadHook.toolchainCall runs source configName debug w = called at *
  generalize LoadHook.toolchainCall runs source configName debug' w' = called' at *
  obtain ⟨call, w⟩ := called
  obtain ⟨call', w'⟩ := called'
  obtain rfl : call' = call := hcall
  cases call' with
  | error e => exact hboth rfl rfl hworld
  | ok call =>
    obtain ⟨n, s, c⟩ := call
    have hresult := ht.result n s c w w' (hR.beside hworld)
    have hafter := hR.together hworld (ht.world n s c w w' (hR.beside hworld))
    dsimp only
    generalize t n s c w = answered at *
    generalize t n s c w' = answered' at *
    obtain ⟨answer, v⟩ := answered
    obtain ⟨answer', v'⟩ := answered'
    obtain rfl : answer' = answer := hresult
    cases answer' with
    | error e => exact hboth rfl rfl hafter
    | ok e => exact hboth rfl rfl (hR.announceEmission hafter e)

end World.Steady

/-- A compilation comes to the same whether it is reported or not. -/
theorem beside_compileFile (ht : t.Heedless var) (h : w.Beside var w') (runs : Nat)
    (source : Path) (configName : String) (debug debug' : Bool) :
    (compileFile t runs source configName debug w).Beside var
      (compileFile t runs source configName debug' w') :=
  ((World.steady_beside var debug debug').compileFile ht h runs source configName).1

/-- Asking for reports of a compilation adds lines to the log and changes nothing else: the
toolchain is called with the same, and the result and the files are the same. -/
theorem compileFile_debug (ht : t.Heedless var) (runs : Nat) (source : Path)
    (configName : String) (w : World) :
    (compileFile t runs source configName false w).Beside var
        (compileFile t runs source configName true w) ∧
      (compileFile t runs source configName false w).world.Quieter
        (compileFile t runs source configName true w).world ∧
      (toolchainCall runs source configName true w).1 =
        (toolchainCall runs source configName false w).1 := by
  have hsteady : World.Steady var false true fun w w' => w.Beside var w' ∧ w.Quieter w' :=
    World.steady_quieter var (by simp)
  have hstart : w.Beside var w ∧ w.Quieter w := ⟨.refl w, .refl w⟩
  obtain ⟨hsame, -, hlog⟩ := hsteady.compileFile ht hstart runs source configName
  exact ⟨hsame, hlog, (hsteady.toolchainCall hstart runs source configName).1⟩

/-! ## Toolchains -/

/-- Running a program comes to the same in worlds that are beside each other. -/
def Runner.Heedless (var : String) (runner : Runner) : Prop :=
  ∀ w w' i, w.Beside var w' → runner w' i = runner w i

namespace Tsc

theorem together_warnLines {v v' : World} (h : World.Together var w w' v v')
    (lines : List (List Char)) :
    World.Together var w w' (warnLines v lines) (warnLines v' lines) := by
  induction lines generalizing v v' with
  | nil => exact h
  | cons line rest ih => exact ih (h.report _ _ _)

theorem together_removeProject {v v' : World} (h : World.Together var w w' v v') (project : Path) :
    World.Together var w w' (removeProject v project) (removeProject v' project) := by
  rw [removeProject, removeProject, h.beside.tree]
  cases v.tree.removeFile project with
  | ok t => exact h.withTree t
  | error cause => exact h.report _ _ _

theorem together_digest {v v' : World} (h : World.Together var w w' v v') (program : Path)
    (f : Finished) :
    (digest v' program f).1 = (digest v program f).1 ∧
      World.Together var w w' (digest v program f).2 (digest v' program f).2 := by
  have hwarned := together_warnLines (together_warnLines h
    (Emission.ofListing (Text.decodeLossy f.stdout)).2)
    ((Text.lines (Text.decodeLossy f.stderr)).filter fun l => !Text.allBlank l)
  refine ⟨rfl, ?_⟩
  simp only [digest]
  split
  · exact hwarned
  · exact hwarned.report _ _ _

/-- The compiler proper is heedless if the program that it runs is. -/
theorem heedless_toolchain {runner : Runner} (hrunner : runner.Heedless var)
    (program : Option Path) : (toolchain runner program).Heedless var := by
  suffices hboth : ∀ n s c w w', w.Beside var w' →
      (toolchain runner program n s c w').1 = (toolchain runner program n s c w).1 ∧
        World.Together var w w' (toolchain runner program n s c w).2
          (toolchain runner program n s c w').2 from
    ⟨fun n s c w w' h => (hboth n s c w w' h).1, fun n s c w w' h => (hboth n s c w w' h).2⟩
  intro n s c w w' h
  have hproject : projectPath w' c.dir s = projectPath w c.dir s := by
    rw [projectPath, projectPath, h.pid]
  have hwritten := fun t => (World.Together.start h).withTree t
  simp only [toolchain, hproject, h.tree, h.now]
  cases w.tree.writeText (projectPath w c.dir s) (c.options.project s).compact w.now with
  | error cause => exact ⟨rfl, .start h⟩
  | ok t =>
    have hrun := hrunner _ _ ⟨locate w.tree program c.dir, arguments (projectPath w c.dir s), c.dir⟩
      (h.withTree t)
    simp only [h.now] at hrun hwritten ⊢
    rw [hrun]
    generalize runner { w with tree := t } _ = finished
    obtain ⟨outcome, t⟩ := finished
    have hremoved := together_removeProject (hwritten t) (projectPath w c.dir s)
    cases outcome with
    | error cause => exact ⟨rfl, hremoved⟩
    | ok f => exact (together_digest hremoved _ f).imp_left (congrArg Except.ok)

end Tsc

namespace StandIn

theorem heedless_copy (script : Bool) (mtime : Time) : (copy script mtime).Heedless var where
  result _ _ _ _ _ _ := by cases script <;> rfl
  world n s c w w' h := by
    simp only [copy, h.tree]
    exact (World.Together.start h).withTree _

end StandIn

end LoadHook
