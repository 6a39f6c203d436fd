import LoadHook.Proofs.Compile.Project
import LoadHook.Proofs.Config.Resolution
import LoadHook.Proofs.Hook.Toggle
import LoadHook.Proofs.Lookup

/-!
# The script of a source

Of the files that a compiler wrote, the script for a source is the last one that shares its stem, or
else the last one at all. So one more file changes the selection only if it is a script; if it
shares the stem it is selected, and if not, only while no script before it does. There is no script
for a source exactly if there is no script, and that is the only failure that compiling adds to
those of the configuration and of the toolchain.
-/
namespace LoadHook

namespace Emission

variable {e : Emission} {source p q : Path} {a : Artifact} {as : List Artifact}

/-- A script among the files written. -/
def IsScript (a : Artifact) : Prop := a.kind = .script

/-- A script with the stem of a source. -/
def IsNamesake (source : Path) (a : Artifact) : Prop :=
  IsScript a ∧ a.path.fileStem = source.fileStem

/-- The script that is selected for a source. -/
inductive Selects (source : Path) (as : List Artifact) : Path → Prop
  | namesake {a : Artifact} (h : IsLast (IsNamesake source) as a) : Selects source as a.path
  | last {a : Artifact} (hnone : ∀ b ∈ as, ¬IsNamesake source b) (h : IsLast IsScript as a) :
    Selects source as a.path

/-! ## The last of a list -/

section Last

variable {α : Type} {P : α → Prop} [DecidablePred P] {xs : List α} {x y : α}

/-- The last element of a list with a property, if there is one. -/
def lastWith? (P : α → Prop) [DecidablePred P] (xs : List α) : Option α :=
  xs.reverse.find? fun x => P x

theorem lastWith?_eq_some_iff : lastWith? P xs = some x ↔ IsLast P xs x := by
  rw [lastWith?, List.find?_eq_some_iff_append]
  constructor
  · rintro ⟨hx, front, back, hxs, hfront⟩
    refine ⟨back.reverse, front.reverse, ?_, of_decide_eq_true hx, fun b hb => ?_⟩
    · simpa using congrArg List.reverse hxs
    · simpa using hfront b (List.mem_reverse.mp hb)
  · rintro ⟨before, after, rfl, hx, hafter⟩
    refine ⟨decide_eq_true hx, after.reverse, before.reverse, by simp, fun b hb => ?_⟩
    simpa using hafter b (List.mem_reverse.mp hb)

theorem lastWith?_eq_none_iff : lastWith? P xs = none ↔ ∀ x ∈ xs, ¬P x := by
  simp [lastWith?]

theorem lastWith?_concat (P : α → Prop) [DecidablePred P] (xs : List α) (x : α) :
    lastWith? P (xs ++ [x]) = if P x then some x else lastWith? P xs := by
  simp only [lastWith?, List.reverse_append, List.reverse_cons, List.reverse_nil, List.nil_append,
    List.singleton_append, List.find?_cons]
  by_cases h : P x <;> simp [h]

end Last

instance : DecidablePred IsScript := fun a => inferInstanceAs (Decidable (a.kind = .script))

instance (source : Path) : DecidablePred (IsNamesake source) := fun a =>
  inferInstanceAs (Decidable (IsScript a ∧ a.path.fileStem = source.fileStem))

theorem lastScript_eq (e : Emission) :
    e.lastScript = (lastWith? IsScript e.artifacts).map Artifact.path := by
  rw [lastScript, scripts, List.getLast?_map, List.getLast?_eq_head?_reverse, ← List.filter_reverse,
    List.head?_filter, lastWith?]
  rfl

/-- The script for a source is found among the files from the last one on. -/
theorem scriptFor_eq (e : Emission) (source : Path) :
    e.scriptFor source =
      ((lastWith? (IsNamesake source) e.artifacts).or (lastWith? IsScript e.artifacts)).map
        Artifact.path := by
  have hnamesake : (e.scripts.reverse.find? fun s => s.fileStem == source.fileStem) =
      (lastWith? (IsNamesake source) e.artifacts).map Artifact.path := by
    rw [scripts, ← List.map_reverse, ← List.filter_reverse, List.find?_map, List.find?_filter,
      lastWith?]
    congr 2
    funext a
    rw [Bool.eq_iff_iff, decide_eq_true_iff, decide_eq_true_iff]
    simp [IsNamesake, IsScript]
  rw [scriptFor, hnamesake, lastScript_eq, Option.map_or]

/-! ## What is selected -/

theorem scriptFor_eq_some_iff :
    e.scriptFor source = some p ↔ Selects source e.artifacts p := by
  rw [scriptFor_eq]
  constructor
  · intro h
    obtain ⟨a, ha, rfl⟩ := Option.map_eq_some_iff.mp h
    rcases Option.or_eq_some_iff.mp ha with hsame | ⟨hnone, hlast⟩
    · exact .namesake (lastWith?_eq_some_iff.mp hsame)
    · exact .last (lastWith?_eq_none_iff.mp hnone) (lastWith?_eq_some_iff.mp hlast)
  · rintro (h | ⟨hnone, h⟩)
    · rw [lastWith?_eq_some_iff.mpr h]
      rfl
    · rw [lastWith?_eq_none_iff.mpr hnone, lastWith?_eq_some_iff.mpr h]
      rfl

/-- There is no script for a source if there is none at all, and then only. -/
theorem scriptFor_eq_none_iff :
    e.scriptFor source = none ↔ ∀ a ∈ e.artifacts, ¬IsScript a := by
  rw [scriptFor_eq, Option.map_eq_none_iff, Option.or_eq_none_iff, lastWith?_eq_none_iff,
    lastWith?_eq_none_iff]
  exact ⟨And.right, fun h => ⟨fun a ha hsame => h a ha hsame.1, h⟩⟩

theorem lastScript_eq_some_iff :
    e.lastScript = some p ↔ ∃ a, IsLast IsScript e.artifacts a ∧ a.path = p := by
  simp only [lastScript_eq, Option.map_eq_some_iff, lastWith?_eq_some_iff]

/-- A script of another stem does not count against one of the source's. -/
theorem scriptFor_of_not_namesake (h : ∀ a ∈ e.artifacts, ¬IsNamesake source a) :
    e.scriptFor source = e.lastScript := by
  rw [scriptFor_eq, lastWith?_eq_none_iff.mpr h, Option.none_or, lastScript_eq]

/-! ## One more file -/

/-- What one more file does to the selection. -/
theorem scriptFor_push (e : Emission) (source p : Path) :
    (e.push p).scriptFor source =
      if IsNamesake source (.ofPath p) then some p
      else if IsScript (.ofPath p) ∧ ∀ a ∈ e.artifacts, ¬IsNamesake source a then some p
      else e.scriptFor source := by
  rw [scriptFor_eq, scriptFor_eq, artifacts_push, lastWith?_concat, lastWith?_concat]
  by_cases hsame : IsNamesake source (.ofPath p)
  · rw [if_pos hsame, if_pos hsame]
    rfl
  · rw [if_neg hsame, if_neg hsame]
    by_cases hscript : IsScript (.ofPath p)
    · rw [if_pos hscript]
      cases hlast : lastWith? (IsNamesake source) e.artifacts with
      | none =>
        rw [if_pos ⟨hscript, lastWith?_eq_none_iff.mp hlast⟩]
        rfl
      | some a =>
        have hsome : ¬∀ a ∈ e.artifacts, ¬IsNamesake source a := fun h => by
          rw [lastWith?_eq_none_iff.mpr h] at hlast
          cases hlast
        rw [if_neg fun h => hsome h.2]
        rfl
    · rw [if_neg hscript, if_neg fun h => hscript h.1]

/-- What is pushed is written in this order, its kind told by its name. -/
theorem artifacts_foldl_push (e : Emission) (ps : List Path) :
    (ps.foldl push e).artifacts = e.artifacts ++ ps.map Artifact.ofPath := by
  induction ps generalizing e with
  | nil => simp
  | cons p ps ih => rw [List.foldl_cons, ih, artifacts_push, List.map_cons]; simp

end Emission

/-! ## Compiling -/

section Compiling

variable {t : Toolchain} {runs : Nat} {source p : Path} {name : String} {debug : Bool} {w : World}

/-- What the toolchain answers when a source is compiled, if it is called. -/
def answer? (t : Toolchain) (runs : Nat) (source : Path) (name : String) (debug : Bool)
    (w : World) : Option (Except CompileError Emission) :=
  match toolchainCall runs source name debug w with
  | (.error _, _) => none
  | (.ok (n, s, c), w) => some (t n s c w).1

/-- The toolchain is called if the source has a configuration, once, and for this source. -/
theorem answer?_cases (t : Toolchain) (runs : Nat) (source : Path) (name : String) (debug : Bool)
    (w : World) :
    (∃ e, (Config.resolve w source name debug).1 = .error e ∧
      answer? t runs source name debug w = none ∧
      (compileFile t runs source name debug w).result = .error e) ∨
    ∃ config w', (Config.resolve w source name debug).1 = .ok config ∧
      answer? t runs source name debug w = some (t (runs + 1) source config w').1 ∧
      (compileFile t runs source name debug w).result =
        (t (runs + 1) source config w').1 >>= (selectScript · source) := by
  rw [compileFile_eq, answer?, toolchainCall]
  generalize Config.resolve w source name debug = resolved
  obtain ⟨r, w₁⟩ := resolved
  cases r with
  | error e => exact .inl ⟨e, rfl, rfl, rfl⟩
  | ok config =>
    refine .inr ⟨config, _, rfl, rfl, ?_⟩
    dsimp only
    generalize t (runs + 1) source config _ = answered
    obtain ⟨_ | _, _⟩ := answered <;> rfl

theorem selectScript_eq_ok_iff {e : Emission} :
    selectScript e source = .ok p ↔ Emission.Selects source e.artifacts p := by
  rw [← Emission.scriptFor_eq_some_iff, selectScript]
  cases e.scriptFor source <;> simp

theorem selectScript_eq_error_iff {e : Emission} {error : CompileError} :
    selectScript e source = .error error ↔
      error = .noScriptEmitted source ∧ ∀ a ∈ e.artifacts, ¬Emission.IsScript a := by
  rw [← Emission.scriptFor_eq_none_iff, selectScript]
  cases e.scriptFor source <;> simp [eq_comm]

/-- What is compiled is what is selected from the answer of the toolchain. -/
theorem result_eq_ok_iff :
    (compileFile t runs source name debug w).result = .ok p ↔
      ∃ e, answer? t runs source name debug w = some (.ok e) ∧
        Emission.Selects source e.artifacts p := by
  rcases answer?_cases t runs source name debug w with
    ⟨e, -, hanswer, hresult⟩ | ⟨config, w', -, hanswer, hresult⟩
  · rw [hanswer, hresult]
    simp
  · rw [hanswer, hresult]
    cases (t (runs + 1) source config w').1 with
    | error e => exact ⟨nofun, nofun⟩
    | ok e =>
      refine selectScript_eq_ok_iff.trans ⟨fun h => ⟨e, rfl, h⟩, ?_⟩
      rintro ⟨_, he, h⟩
      cases he
      exact h

/-- That there is no script is said of a source if the toolchain has emitted none, or says so
itself. -/
theorem result_eq_noScriptEmitted_iff :
    (compileFile t runs source name debug w).result = .error (.noScriptEmitted p) ↔
      (p = source ∧ ∃ e, answer? t runs source name debug w = some (.ok e) ∧
        ∀ a ∈ e.artifacts, ¬Emission.IsScript a) ∨
      answer? t runs source name debug w = some (.error (.noScriptEmitted p)) := by
  rcases answer?_cases t runs source name debug w with
    ⟨e, hconfig, hanswer, hresult⟩ | ⟨config, w', -, hanswer, hresult⟩
  · rw [hanswer, hresult]
    refine ⟨fun h => ?_, by simp⟩
    cases h
    rcases Config.resolve_eq_error hconfig with ⟨_, h⟩ | ⟨_, _, h⟩ | ⟨_, _, h⟩ <;> cases h
  · rw [hanswer, hresult]
    cases (t (runs + 1) source config w').1 with
    | error e =>
      refine ⟨fun h => .inr ?_, ?_⟩
      · cases h
        rfl
      · rintro (⟨-, _, h, -⟩ | h)
        · cases h
        · cases h
          rfl
    | ok e =>
      refine selectScript_eq_error_iff.trans ⟨fun ⟨hp, h⟩ => .inl ⟨?_, e, rfl, h⟩, ?_⟩
      · cases hp
        rfl
      · rintro (⟨rfl, _, he, h⟩ | h)
        · cases he
          exact ⟨rfl, h⟩
        · cases h

/-- The compiler proper leaves it to others to say that there is no script. -/
theorem Tsc.fst_toolchain_ne (runner : Runner) (program : Option Path) (run : Nat) (source : Path)
    (config : Config) (w : World) (p : Path) :
    (Tsc.toolchain runner program run source config w).1 ≠ .error (.noScriptEmitted p) := by
  intro h
  cases hwrite : Tsc.writeProject source config w with
  | error cause =>
    rw [Tsc.toolchain_of_unwritten hwrite] at h
    cases h
  | ok tree =>
    rw [Tsc.fst_toolchain hwrite] at h
    split at h <;> cases h

theorem answer?_tsc_ne (runner : Runner) (program : Option Path) (runs : Nat) (source : Path)
    (name : String) (debug : Bool) (w : World) (p : Path) :
    answer? (Tsc.toolchain runner program) runs source name debug w ≠
      some (.error (.noScriptEmitted p)) := by
  rcases answer?_cases (Tsc.toolchain runner program) runs source name debug w with
    ⟨e, -, hanswer, -⟩ | ⟨config, w', -, hanswer, -⟩
  · rw [hanswer]
    exact nofun
  · rw [hanswer]
    exact fun h => Tsc.fst_toolchain_ne _ _ _ _ _ _ p (Option.some.inj h)

end Compiling

/-! ## The law of selection -/

/-- Which script is selected for a source.

There is one exactly if a script was written at all: the last one that shares the stem of the
source, or else the last one. A file that is no script never changes it; a script that shares the
stem is selected at once, and another one only if none before it shares the stem. A source that is
compiled comes to what is selected from the answer of the toolchain, and to nothing else; and that
there is no script is said if there is none in this answer, or if the toolchain itself says so,
which the compiler proper never does. -/
structure SelectionLaw (source : Path) : Prop where
  pushed : ∀ ps : List Path, (ps.foldl Emission.push .empty).artifacts =
    ps.map fun p => ⟨p, ArtifactKind.ofPath p⟩
  none_iff : ∀ e : Emission, e.scriptFor source = none ↔ ∀ a ∈ e.artifacts, a.kind ≠ .script
  some_iff : ∀ (e : Emission) p, e.scriptFor source = some p ↔ Emission.Selects source e.artifacts p
  last_iff : ∀ (e : Emission) p,
    e.lastScript = some p ↔ ∃ a, IsLast Emission.IsScript e.artifacts a ∧ a.path = p
  fallback : ∀ e : Emission,
    (∀ a ∈ e.artifacts, a.kind = .script → a.path.fileStem ≠ source.fileStem) →
    e.scriptFor source = e.lastScript
  push_other : ∀ (e : Emission) p, ArtifactKind.ofPath p ≠ .script →
    (e.push p).scriptFor source = e.scriptFor source
  push_namesake : ∀ (e : Emission) p, ArtifactKind.ofPath p = .script →
    p.fileStem = source.fileStem → (e.push p).scriptFor source = some p
  push_stranger : ∀ (e : Emission) p, ArtifactKind.ofPath p = .script →
    p.fileStem ≠ source.fileStem → (e.push p).scriptFor source ≠ e.scriptFor source →
    ∀ a ∈ e.artifacts, a.kind = .script → a.path.fileStem ≠ source.fileStem
  compiled_iff : ∀ (t : Toolchain) runs name debug w p,
    (compileFile t runs source name debug w).result = .ok p ↔
      ∃ e, answer? t runs source name debug w = some (.ok e) ∧
        Emission.Selects source e.artifacts p
  noScript_iff : ∀ (t : Toolchain) runs name debug w p,
    (compileFile t runs source name debug w).result = .error (.noScriptEmitted p) ↔
      (p = source ∧ ∃ e, answer? t runs source name debug w = some (.ok e) ∧
        ∀ a ∈ e.artifacts, a.kind ≠ .script) ∨
      answer? t runs source name debug w = some (.error (.noScriptEmitted p))
  proper : ∀ runner program runs name debug w p,
    (compileFile (Tsc.toolchain runner program) runs source name debug w).result =
        .error (.noScriptEmitted p) ↔
      p = source ∧ ∃ e, answer? (Tsc.toolchain runner program) runs source name debug w =
        some (.ok e) ∧ ∀ a ∈ e.artifacts, a.kind ≠ .script

theorem selection_law (source : Path) : SelectionLaw source where
  pushed ps := by
    rw [Emission.artifacts_foldl_push]
    rfl
  none_iff _ := Emission.scriptFor_eq_none_iff
  some_iff _ _ := Emission.scriptFor_eq_some_iff
  last_iff _ _ := Emission.lastScript_eq_some_iff
  fallback _ h := Emission.scriptFor_of_not_namesake fun a ha hsame => h a ha hsame.1 hsame.2
  push_other e p hkind := by
    have hscript : ¬Emission.IsScript (.ofPath p) := hkind
    rw [Emission.scriptFor_push, if_neg fun h => hscript h.1, if_neg fun h => hscript h.1]
  push_namesake e p hkind hstem := by
    rw [Emission.scriptFor_push, if_pos ⟨hkind, hstem⟩]
  push_stranger e p _ hstem hchanged a ha hkind hsame := by
    refine hchanged ?_
    rw [Emission.scriptFor_push, if_neg fun h => hstem h.2,
      if_neg fun h => h.2 a ha ⟨hkind, hsame⟩]
  compiled_iff _ _ _ _ _ _ := result_eq_ok_iff
  noScript_iff _ _ _ _ _ _ := result_eq_noScriptEmitted_iff
  proper runner program runs name debug w p :=
    result_eq_noScriptEmitted_iff.trans
      (or_iff_left (answer?_tsc_ne runner program runs source name debug w p))

/-- A script of another stem is selected only until one of the source's stem is written. -/
example :
    ([["a.d.ts", "b.js"], ["b.js", "a.js", "a.js.map", "c.js"]] : List (List Path)).map
        (fun ps => (ps.foldl Emission.push .empty).scriptFor "src/a.ts") =
      [some ("b.js" : Path), some ("a.js" : Path)] := by
  decide

end LoadHook
