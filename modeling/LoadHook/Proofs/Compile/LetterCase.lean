import LoadHook.Proofs.Compile.Selection
import LoadHook.Proofs.Path.Pieces
import Mathlib.Data.List.Find

/-!
# The letter case of artifacts

What kind of file a name tells does not depend on the case of its letters, except for scripts: their
extensions count only in lower case. So two names that are equal up to case tell different kinds
exactly if their extension is one of scripts but for its case, and one of the two has it in lower
case and the other has not; and as long as this does not happen, emissions that differ only in the
case of extensions have their scripts at the same places.
-/
namespace LoadHook

open Text (lowerAscii)

namespace Path

variable {p q : Path} {s x : Name}

/-! ## Names in lower case -/

theorem toLower_eq_dot {c : Char} : c.toLower = '.' ↔ c = '.' := by
  by_cases hc : 65 ≤ c.toNat ∧ c.toNat ≤ 90
  · have hall : ∀ n ≤ 90, 65 ≤ n → ((Char.ofNat n).toLower = '.' ↔ Char.ofNat n = '.') := by
      decide
    have h := hall c.toNat hc.2 hc.1
    rwa [Char.ofNat_toNat] at h
  · have hupper : ¬(c.val ≥ 'A'.val ∧ c.val ≤ 'Z'.val) := by
      simpa [UInt32.le_iff_toNat_le] using hc
    have hself : c.toLower = c := dif_neg hupper
    rw [hself]

/-- A name in lower case is cut where the name is cut. -/
theorem cutName_lowerAscii (s : Name) :
    cutName (lowerAscii s) = (lowerAscii (cutName s).1, (cutName s).2.map lowerAscii) := by
  have hdot : (· != '.') ∘ Char.toLower = (· != '.') := by
    funext c
    rw [Bool.eq_iff_iff]
    simp [toLower_eq_dot]
  have hspan : (lowerAscii s).reverse.span (· != '.') =
      ((s.reverse.takeWhile (· != '.')).map Char.toLower,
        (s.reverse.dropWhile (· != '.')).map Char.toLower) := by
    rw [lowerAscii, ← List.map_reverse, List.span_eq_takeWhile_dropWhile, List.takeWhile_map,
      List.dropWhile_map, hdot]
  rw [cutName, hspan, cutName, List.span_eq_takeWhile_dropWhile]
  generalize s.reverse.dropWhile (· != '.') = back
  rcases back with _ | ⟨c, _ | ⟨d, stem⟩⟩
  · rfl
  · rfl
  · simp [lowerAscii]

/-- The name of a path in lower case. -/
def lowerName (p : Path) : Option Name := p.fileName.map lowerAscii

/-- The extension in lower case is that of the name in lower case. -/
theorem extension_lowerAscii (p : Path) :
    p.extension.map lowerAscii = (cutName (p.lowerName.getD [])).2 := by
  rw [extension, lowerName]
  cases p.fileName with
  | none => rfl
  | some s => simp [cutName_lowerAscii]

theorem extension_congr (h : p.lowerName = q.lowerName) :
    p.extension.map lowerAscii = q.extension.map lowerAscii := by
  rw [extension_lowerAscii, extension_lowerAscii, h]

/-- A name that ends in a dot and `x` has no other extension. -/
theorem extension_of_suffix (hx : '.' ∉ x) (hs : '.' :: x <:+ s) :
    (cutName s).2 = none ∨ (cutName s).2 = some x := by
  obtain ⟨front, rfl⟩ := hs
  cases front with
  | nil => exact .inl (congrArg Prod.snd (cutName_dot_front hx))
  | cons c front => exact .inr (congrArg Prod.snd (cutName_dot (List.cons_ne_nil c front) hx))

end Path

namespace ArtifactKind

variable {p q : Path} {name : Name} {k : ArtifactKind}

/-! ## Kinds -/

/-- The kind that an ending tells in either letter case, of a name in lower case. -/
def ofEnding (name : Name) : Option ArtifactKind :=
  if endsIn ".d.ts" name || endsIn ".d.mts" name || endsIn ".d.cts" name then some .declaration
  else if endsIn ".map" name then some .sourceMap
  else if endsIn ".tsbuildinfo" name then some .buildInfo
  else none

/-- The extension of a path is one of scripts. -/
def IsScriptPath (p : Path) : Prop := ∃ x ∈ scriptExtensions, p.extension = some x

/-- The extension of a path is one of scripts, but for its letter case. -/
def LikeScript (p : Path) : Prop := ∃ x ∈ scriptExtensions, p.extension.map lowerAscii = some x

/-- The extension of a path is written in lower case. -/
def IsLower (p : Path) : Prop := p.extension.map lowerAscii = p.extension

/-- A name with one of the endings has no extension of scripts. -/
theorem ofEnding_of_script {x : Name} (hx : x ∈ scriptExtensions)
    (h : (Path.cutName name).2 = some x) : ofEnding name = none := by
  have hno : ∀ (front ending : Name), '.' ∉ ending → ending ∉ scriptExtensions →
      (front ++ '.' :: ending).isSuffixOf name = false := by
    intro front ending hdot hending
    refine Bool.eq_false_iff.mpr fun hsuffix => ?_
    have hs : '.' :: ending <:+ name :=
      (List.suffix_append front _).trans (List.isSuffixOf_iff_suffix.mp hsuffix)
    rcases Path.extension_of_suffix hdot hs with hnone | hsome
    · rw [hnone] at h
      cases h
    · rw [hsome] at h
      cases h
      exact hending hx
  have hts : endsIn ".d.ts" name = false := hno ['.', 'd'] ['t', 's'] (by decide) (by decide)
  have hmts : endsIn ".d.mts" name = false := hno ['.', 'd'] ['m', 't', 's'] (by decide) (by decide)
  have hcts : endsIn ".d.cts" name = false := hno ['.', 'd'] ['c', 't', 's'] (by decide) (by decide)
  have hmap : endsIn ".map" name = false := hno [] ['m', 'a', 'p'] (by decide) (by decide)
  have hinfo : endsIn ".tsbuildinfo" name = false :=
    hno [] "tsbuildinfo".toList (by decide) (by decide)
  rw [ofEnding, hts, hmts, hcts, hmap, hinfo]
  rfl

theorem ofEnding_ne {k : ArtifactKind} (h : ofEnding name = some k) : k ≠ .script ∧ k ≠ .other := by
  unfold ofEnding at h
  repeat' split at h
  all_goals cases h <;> decide

instance : DecidablePred IsScriptPath := fun p =>
  inferInstanceAs (Decidable (∃ x ∈ scriptExtensions, p.extension = some x))

/-- A kind is told by an ending in either letter case, or else by the extension as it is. -/
theorem ofPath_eq (p : Path) : ofPath p =
    (ofEnding (p.lowerName.getD [])).getD (if IsScriptPath p then .script else .other) := by
  have hname : p.lowerName.getD [] = lowerAscii (p.fileName.getD []) := by
    rw [Path.lowerName]
    cases p.fileName <;> rfl
  rw [hname, ofPath, ofEnding]
  split
  · rfl
  · split
    · rfl
    · split
      · rfl
      · cases h : p.extension with
        | none => simp [IsScriptPath, h]
        | some ext => simp [IsScriptPath, h]

/-- The extensions of scripts are written in lower case. -/
theorem isScriptPath_iff : IsScriptPath p ↔ LikeScript p ∧ IsLower p := by
  have hlower : ∀ x ∈ scriptExtensions, lowerAscii x = x := by decide
  constructor
  · rintro ⟨x, hx, hp⟩
    refine ⟨⟨x, hx, ?_⟩, ?_⟩
    · rw [hp, Option.map_some, hlower x hx]
    · rw [IsLower, hp, Option.map_some, hlower x hx]
  · rintro ⟨⟨x, hx, hp⟩, hself⟩
    exact ⟨x, hx, hself ▸ hp⟩

/-- The kind of script is told by the extension alone. -/
theorem ofPath_eq_script_iff : ofPath p = .script ↔ IsScriptPath p := by
  rw [ofPath_eq]
  constructor
  · intro h
    by_contra hp
    rw [if_neg hp] at h
    cases hending : ofEnding (p.lowerName.getD []) with
    | none => rw [hending] at h; cases h
    | some k => rw [hending] at h; exact (ofEnding_ne hending).1 h
  · intro hp
    obtain ⟨⟨x, hx, hextension⟩, -⟩ := isScriptPath_iff.mp hp
    rw [Path.extension_lowerAscii] at hextension
    rw [ofEnding_of_script hx hextension, if_pos hp]
    rfl

theorem likeScript_congr (h : p.lowerName = q.lowerName) : LikeScript p ↔ LikeScript q := by
  rw [LikeScript, LikeScript, Path.extension_congr h]

/-- Two paths are written in lower case both, or neither is, if they are those of scripts. -/
def Uniform (p q : Path) : Prop := LikeScript p → (IsLower p ↔ IsLower q)

theorem uniform_iff (h : p.lowerName = q.lowerName) :
    Uniform p q ↔ (IsScriptPath p ↔ IsScriptPath q) := by
  rw [Uniform, isScriptPath_iff, isScriptPath_iff, ← likeScript_congr h]
  exact ⟨fun hu => and_congr_right hu, fun hs hp => by simpa [hp] using hs⟩

/-- Names that are equal up to case are of one kind exactly if their extension is not that of a
script in one letter case and another. -/
theorem ofPath_eq_iff (h : p.lowerName = q.lowerName) : ofPath p = ofPath q ↔ Uniform p q := by
  rw [uniform_iff h]
  constructor
  · intro hkind
    rw [← ofPath_eq_script_iff, ← ofPath_eq_script_iff, hkind]
  · intro hs
    rw [ofPath_eq, ofPath_eq, h]
    simp only [hs]

/-- All other kinds are told in either letter case. -/
theorem ofPath_eq_congr (h : p.lowerName = q.lowerName) (hscript : k ≠ .script)
    (hother : k ≠ .other) : ofPath p = k ↔ ofPath q = k := by
  have hending (p : Path) : ofPath p = k ↔ ofEnding (p.lowerName.getD []) = some k := by
    rw [ofPath_eq]
    cases ofEnding (p.lowerName.getD []) with
    | some k' => simp
    | none => split <;> simp [Ne.symm hscript, Ne.symm hother]
  rw [hending, hending, h]

end ArtifactKind

/-! ## Selecting -/

namespace Emission

open ArtifactKind (Uniform LikeScript IsLower)

variable {source : Path} {pairs : List (Path × Path)}

/-- Two paths differ in nothing that counts but the letter case of their extensions. -/
structure Recased (p q : Path) : Prop where
  stem : p.fileStem = q.fileStem
  name : p.lowerName = q.lowerName

theorem lastWith?_map {α β : Type} (f : α → β) (P : β → Prop) [DecidablePred P] (xs : List α) :
    lastWith? P (xs.map f) = (lastWith? (fun x => P (f x)) xs).map f := by
  rw [lastWith?, lastWith?, ← List.map_reverse, List.find?_map]
  rfl

theorem lastWith?_congr {α : Type} {P Q : α → Prop} [DecidablePred P] [DecidablePred Q]
    {xs : List α} (h : ∀ x ∈ xs, P x ↔ Q x) : lastWith? P xs = lastWith? Q xs :=
  List.find?_congr fun x hx => decide_eq_decide.mpr (h x (List.mem_reverse.mp hx))

theorem lastWith?_mem {α : Type} {P : α → Prop} [DecidablePred P] {xs : List α} {x : α}
    (h : lastWith? P xs = some x) : x ∈ xs :=
  List.mem_reverse.mp (List.mem_of_find?_eq_some h)

/-- Of corresponding files, the same one is found among the first and among the second. -/
def Corresponds (pairs : List (Path × Path)) (p q : Option Path) : Prop :=
  ∃ choice : Option (Path × Path), (∀ x ∈ choice, x ∈ pairs) ∧ p = choice.map Prod.fst ∧
    q = choice.map Prod.snd

/-- What is last among the first files corresponds to what is last among the second. -/
theorem lastWith?_ofPaths (P : Artifact → Prop) [DecidablePred P]
    (h : ∀ x ∈ pairs, P (.ofPath x.1) ↔ P (.ofPath x.2)) :
    ∃ choice : Option (Path × Path), (∀ x ∈ choice, x ∈ pairs) ∧
      lastWith? P (ofPaths (pairs.map Prod.fst)).artifacts =
        choice.map (fun x => Artifact.ofPath x.1) ∧
      lastWith? P (ofPaths (pairs.map Prod.snd)).artifacts =
        choice.map (fun x => Artifact.ofPath x.2) := by
  refine ⟨lastWith? (fun x => P (.ofPath x.1)) pairs, fun x hx => lastWith?_mem hx, ?_, ?_⟩
  · rw [ofPaths, List.map_map, lastWith?_map]
    rfl
  · rw [ofPaths, List.map_map, lastWith?_map, lastWith?_congr h]
    rfl

section Alike

variable (hpairs : ∀ x ∈ pairs, Recased x.1 x.2 ∧ Uniform x.1 x.2)
include hpairs

theorem isScript_iff_of_recased :
    ∀ x ∈ pairs, IsScript (.ofPath x.1) ↔ IsScript (.ofPath x.2) := by
  intro x hx
  obtain ⟨hrecased, huniform⟩ := hpairs x hx
  rw [IsScript, IsScript, Artifact.kind_ofPath, Artifact.kind_ofPath,
    (ArtifactKind.ofPath_eq_iff hrecased.name).mpr huniform]

theorem isNamesake_iff_of_recased (source : Path) :
    ∀ x ∈ pairs, IsNamesake source (.ofPath x.1) ↔ IsNamesake source (.ofPath x.2) := by
  intro x hx
  rw [IsNamesake, IsNamesake, isScript_iff_of_recased hpairs x hx, Artifact.path_ofPath,
    Artifact.path_ofPath, (hpairs x hx).1.stem]

theorem lastScript_corresponds : Corresponds pairs (ofPaths (pairs.map Prod.fst)).lastScript
    (ofPaths (pairs.map Prod.snd)).lastScript := by
  obtain ⟨choice, hmem, hfirst, hsecond⟩ :=
    lastWith?_ofPaths IsScript (isScript_iff_of_recased hpairs)
  refine ⟨choice, hmem, ?_, ?_⟩
  · rw [lastScript_eq, hfirst, Option.map_map]
    rfl
  · rw [lastScript_eq, hsecond, Option.map_map]
    rfl

theorem scriptFor_corresponds (source : Path) :
    Corresponds pairs ((ofPaths (pairs.map Prod.fst)).scriptFor source)
      ((ofPaths (pairs.map Prod.snd)).scriptFor source) := by
  obtain ⟨namesake, hnamesake, hfirst, hsecond⟩ :=
    lastWith?_ofPaths (IsNamesake source) (isNamesake_iff_of_recased hpairs source)
  obtain ⟨last, hlast, hfirst', hsecond'⟩ :=
    lastWith?_ofPaths IsScript (isScript_iff_of_recased hpairs)
  refine ⟨namesake.or last, fun x hx => ?_, ?_, ?_⟩
  · rcases Option.or_eq_some_iff.mp hx with hx | ⟨-, hx⟩
    · exact hnamesake x hx
    · exact hlast x hx
  · rw [scriptFor_eq, hfirst, hfirst', ← Option.map_or, Option.map_map]
    rfl
  · rw [scriptFor_eq, hsecond, hsecond', ← Option.map_or, Option.map_map]
    rfl

end Alike

/-- There is a script for a source if it is the only file. -/
theorem isSome_scriptFor_single (source p : Path) :
    ((ofPaths [p]).scriptFor source).isSome ↔ ArtifactKind.IsScriptPath p := by
  rw [← ArtifactKind.ofPath_eq_script_iff, Option.isSome_iff_ne_none, Ne, scriptFor_eq_none_iff]
  simp [ofPaths, IsScript]

/-- How far the letter case of extensions counts.

Names that are equal up to case are of one kind, unless their extension is that of a script but for
its case and is written in lower case in one name only; then one is a script and the other is not.
Emissions with names that are equal up to the case of their extensions have their scripts at the
same places, the last one and the one for any source, if none of the names is such an exception; and
one that stands alone makes the difference between a script and none. -/
structure LetterCaseLaw (source : Path) : Prop where
  script_iff : ∀ p, ArtifactKind.ofPath p = .script ↔ LikeScript p ∧ IsLower p
  kind_iff : ∀ p q, p.lowerName = q.lowerName →
    (ArtifactKind.ofPath p = ArtifactKind.ofPath q ↔ Uniform p q)
  other_kinds : ∀ p q k, p.lowerName = q.lowerName → k ≠ .script → k ≠ .other →
    (ArtifactKind.ofPath p = k ↔ ArtifactKind.ofPath q = k)
  last : ∀ pairs : List (Path × Path), (∀ x ∈ pairs, Recased x.1 x.2 ∧ Uniform x.1 x.2) →
    Corresponds pairs (ofPaths (pairs.map Prod.fst)).lastScript
      (ofPaths (pairs.map Prod.snd)).lastScript
  selected : ∀ pairs : List (Path × Path), (∀ x ∈ pairs, Recased x.1 x.2 ∧ Uniform x.1 x.2) →
    Corresponds pairs ((ofPaths (pairs.map Prod.fst)).scriptFor source)
      ((ofPaths (pairs.map Prod.snd)).scriptFor source)
  exception : ∀ p q, Recased p q → ¬Uniform p q →
    ((ofPaths [p]).scriptFor source).isSome ≠ ((ofPaths [q]).scriptFor source).isSome

theorem letterCase_law (source : Path) : LetterCaseLaw source where
  script_iff _ := ArtifactKind.ofPath_eq_script_iff.trans ArtifactKind.isScriptPath_iff
  kind_iff _ _ h := ArtifactKind.ofPath_eq_iff h
  other_kinds _ _ _ h hscript hother := ArtifactKind.ofPath_eq_congr h hscript hother
  last _ h := lastScript_corresponds h
  selected _ h := scriptFor_corresponds h source
  exception p q hrecased huniform h := by
    rw [ArtifactKind.uniform_iff hrecased.name, ← isSome_scriptFor_single source p,
      ← isSome_scriptFor_single source q, h] at huniform
    exact huniform Iff.rfl

/-- The exception. -/
example : (ArtifactKind.ofPath "/o/a.js", ArtifactKind.ofPath "/o/a.JS") =
    (.script, .other) := by
  decide

end Emission
end LoadHook
