import LoadHook.Compile.StandIn
import LoadHook.Proofs.Hook.Work

/-!
# Failed attempts to compile

An attempt to compile a source fails before the toolchain runs, for want of a configuration, or
after it. What it says in the log is told here by its level: an attempt raises no alarm by itself,
so the failure is reported once, by the hook. `Toolchain.Calm` and `Toolchain.Own` say what is
asked of a toolchain for that, and the compiler proper keeps to it.
-/
namespace LoadHook

variable {w w' : World} {t : Toolchain} {s : Path} {e : CompileError} {k : Hook}

/-! ## The log by its levels -/

/-- The events of a log that are errors. -/
def World.errors (w : World) : List Event := w.log.toList.filter fun e => e.level = .error

namespace World

@[simp] theorem errors_report_error (w : World) (source : Source) (text : String) :
    (w.report .error source text).errors = w.errors ++ [⟨.error, source, text⟩] := by
  simp [errors]

theorem errors_report_of_ne {level : Level} (hl : level ≠ .error) (w : World) (source : Source)
    (text : String) : (w.report level source text).errors = w.errors := by
  simp [errors, hl]

/-- Reporting each element of a list below the level of errors. -/
theorem errors_foldl_report {α : Type} {level : Level} (hl : level ≠ .error) (source : Source)
    (text : α → String) (xs : List α) (w : World) :
    (xs.foldl (fun w x => w.report level source (text x)) w).errors = w.errors := by
  induction xs generalizing w with
  | nil => rfl
  | cons x xs ih => rw [List.foldl_cons, ih, errors_report_of_ne hl]

end World

/-! ## Toolchains -/

namespace CompileError

/-- Whether the configuration of a source is at fault. -/
def ofConfig : CompileError → Bool
  | .configNotFound _ | .configRead _ _ | .configParse _ _ => true
  | .toolchain _ _ | .projectWrite _ _ | .noScriptEmitted _ => false

end CompileError

namespace Toolchain

/-- A toolchain reports no errors in the log. -/
def Calm (t : Toolchain) : Prop := ∀ n s c w, (t n s c w).2.errors = w.errors

/-- A toolchain fails for reasons of its own, which lie not in the configuration. -/
def Own (t : Toolchain) : Prop := ∀ n s c w e, (t n s c w).1 = .error e → e.ofConfig = false

end Toolchain

namespace Tsc

theorem errors_warnLines (w : World) (lines : List (List Char)) :
    (warnLines w lines).errors = w.errors :=
  World.errors_foldl_report (by decide) .compiler _ lines w

theorem errors_removeProject (w : World) (project : Path) :
    (removeProject w project).errors = w.errors := by
  rw [removeProject]
  split
  · rfl
  · exact World.errors_report_of_ne (by decide) _ _ _

theorem errors_digest (w : World) (program : Path) (f : Finished) :
    (digest w program f).2.errors = w.errors := by
  simp only [digest]
  split
  · rw [errors_warnLines, errors_warnLines]
  · rw [World.errors_report_of_ne (by decide), errors_warnLines, errors_warnLines]

/-- The compiler proper raises no alarm. -/
theorem calm_toolchain (runner : Runner) (program : Option Path) :
    (toolchain runner program).Calm := by
  intro n s c w
  simp only [toolchain]
  split
  · rfl
  · split
    · exact errors_removeProject _ _
    · rw [errors_digest, errors_removeProject]
      rfl

theorem own_toolchain (runner : Runner) (program : Option Path) :
    (toolchain runner program).Own := by
  intro n s c w e he
  simp only [toolchain] at he
  split at he
  · cases he
    rfl
  · split at he
    · cases he
      rfl
    · cases he

end Tsc

namespace StandIn

theorem calm_fixed (artifacts : List Path) (files : List (Path × String)) (mtime : Time) :
    (fixed artifacts files mtime).Calm := fun _ _ _ _ => rfl

theorem own_fixed (artifacts : List Path) (files : List (Path × String)) (mtime : Time) :
    (fixed artifacts files mtime).Own := nofun

end StandIn

/-! ## Attempts -/

theorem errors_resolve (w : World) (s : Path) (name : String) (debug : Bool) :
    (Config.resolve w s name debug).2.errors = w.errors := by
  simp only [Config.resolve]
  split
  · rfl
  · split
    · simp only [Config.announce]
      rw [World.errors_report_of_ne (by decide), World.errors_report_of_ne (by decide),
        World.errors_report_of_ne (by decide)]
    · rfl

theorem errors_announceEmission (w : World) (e : Emission) :
    (announceEmission w e).errors = w.errors := by
  rw [announceEmission, World.errors_report_of_ne (by decide),
    World.errors_foldl_report (by decide)]

namespace Hook

/-- With a calm toolchain an attempt to compile a source reports no errors itself. -/
theorem errors_attempt (ht : k.toolchain.Calm) (s : Path) (w : World) :
    (k.attempt s w).world.errors = w.errors := by
  simp only [attempt, compileFile]
  have hresolve := errors_resolve w s k.settings.configFileName (k.settings.debugEnabled w)
  generalize Config.resolve w s k.settings.configFileName (k.settings.debugEnabled w) = r
    at hresolve
  obtain ⟨r, w₁⟩ := r
  cases r with
  | error e => exact hresolve
  | ok config =>
    simp only
    have hannounced : (((if k.settings.debugEnabled w then announceOptions w₁ config.options
        else w₁).report .info .compiler ("  Compiling " ++ s.text))).errors = w.errors := by
      rw [World.errors_report_of_ne (by decide), ← hresolve]
      split
      · exact World.errors_report_of_ne (by decide) _ _ _
      · rfl
    generalize ((if k.settings.debugEnabled w then announceOptions w₁ config.options
      else w₁).report .info .compiler ("  Compiling " ++ s.text)) = w₂ at hannounced
    have hcalm := ht (k.runs + 1) s config w₂
    generalize k.toolchain (k.runs + 1) s config w₂ = emitted at hcalm
    obtain ⟨r, w₃⟩ := emitted
    cases r with
    | error e => exact hcalm.trans hannounced
    | ok emission =>
      simp only
      split
      · exact (errors_announceEmission w₃ emission).trans (hcalm.trans hannounced)
      · exact hcalm.trans hannounced

/-- If the configuration is at fault the toolchain has not run, and no file has changed. -/
theorem attempt_of_ofConfig (ht : k.toolchain.Own) (he : (k.attempt s w).result = .error e)
    (hc : e.ofConfig = true) :
    (k.attempt s w).runs = k.runs ∧ (k.attempt s w).world.tree = w.tree := by
  have htree := tree_resolve w s k.settings.configFileName (k.settings.debugEnabled w)
  simp only [attempt, compileFile] at he ⊢
  generalize Config.resolve w s k.settings.configFileName (k.settings.debugEnabled w) = r
    at he htree ⊢
  obtain ⟨r, w₁⟩ := r
  cases r with
  | error e => exact ⟨rfl, htree⟩
  | ok config =>
    simp only at he
    generalize ((if k.settings.debugEnabled w then announceOptions w₁ config.options
      else w₁).report .info .compiler ("  Compiling " ++ s.text)) = w₂ at he
    have hown := ht (k.runs + 1) s config w₂
    generalize k.toolchain (k.runs + 1) s config w₂ = emitted at he hown
    obtain ⟨r, w₃⟩ := emitted
    cases r with
    | error e' =>
      cases he
      rw [hown e rfl] at hc
      cases hc
    | ok emission =>
      have hselect : selectScript emission s = .error e := he
      rw [selectScript] at hselect
      split at hselect
      · cases hselect
      · cases hselect
        cases hc

end Hook
end LoadHook
