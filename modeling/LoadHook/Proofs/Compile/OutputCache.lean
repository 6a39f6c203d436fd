import LoadHook.Compile.OutputCache
import LoadHook.Proofs.Lookup
import LoadHook.Proofs.Path.Map
import LoadHook.Proofs.Path.Spelling
import Mathlib.Data.Set.Card

/-!
# What the output cache holds

The cache is a finite map from paths up to their spelling. It holds what was recorded last for each
source, and as many entries as sources can be told apart among those recorded. Recording answers
with the output that it replaces.
-/
namespace LoadHook

/-- Spelling one path. -/
def Path.spelling : Setoid Path where
  r p q := p.same q
  iseqv := ⟨same_refl, same_symm, same_trans⟩

/-- What the spellings of a path have in common. -/
abbrev Path.Class := Quotient Path.spelling

theorem Path.class_eq_iff {p q : Path} :
    (Quotient.mk spelling p : Class) = Quotient.mk spelling q ↔ p.same q :=
  ⟨Quotient.exact, fun h => Quotient.sound h⟩

namespace PathMap

variable {α : Type} {m : PathMap α} {p : Path} {a : α}

/-- The paths of entries, up to their spelling. -/
def classes (es : List (Path × α)) : Set Path.Class :=
  {k | ∃ e ∈ es, Quotient.mk Path.spelling e.1 = k}

/-- A map has as many entries as paths. -/
theorem Apart.size_eq (h : m.Apart) : m.size = (classes m.entries).ncard := by
  classical
  let keys : List Path.Class := m.entries.map fun e => Quotient.mk Path.spelling e.1
  have hnodup : keys.Nodup := by
    refine List.pairwise_map.mpr (h.imp fun hsame hkey => ?_)
    rw [Path.class_eq_iff.mp hkey] at hsame
    cases hsame
  have hkeys : classes m.entries = keys.toFinset := by
    ext k
    simp [classes, keys]
  rw [hkeys, Set.ncard_coe_finset, List.toFinset_card_of_nodup hnodup, List.length_map, size]

theorem isEmpty_insert (m : PathMap α) (p : Path) (a : α) : (m.insert p a).isEmpty = false := by
  obtain ⟨entries⟩ := m
  simp only [isEmpty, insert]
  cases entries with
  | nil => rfl
  | cons e rest =>
    unfold put
    split <;> rfl

end PathMap

namespace OutputCache

variable {c : OutputCache} {q source output : Path} {xs : List (Path × Path)}

theorem exchange_eq (source output : Path) (es : List (Path × Path)) :
    exchange source output es = (PathMap.find source es, PathMap.put source output es) := by
  induction es with
  | nil => rfl
  | cons e rest ih =>
    obtain ⟨p, old⟩ := e
    simp only [exchange, PathMap.find, PathMap.put, ih]
    split <;> rfl

/-- Recording answers with what was there, and leaves what an insertion leaves. -/
theorem record_eq (c : OutputCache) (source output : Path) :
    c.record source output = (c.get? source, c.insert source output) := by
  rw [record, exchange_eq]
  rfl

/-- The cache after outputs have been recorded, the first ones first. -/
def recorded (xs : List (Path × Path)) : OutputCache :=
  xs.foldl (fun c x => (c.record x.1 x.2).2) .empty

theorem recorded_concat (xs : List (Path × Path)) (x : Path × Path) :
    recorded (xs ++ [x]) = (recorded xs).insert x.1 x.2 := by
  rw [recorded, List.foldl_append, List.foldl_cons, List.foldl_nil, record_eq]
  rfl

/-- What is found for a source is what was recorded last under one of its spellings. -/
theorem get?_recorded : (recorded xs).get? q = some output ↔
    ∃ x, IsLast (fun x : Path × Path => x.1.same q) xs x ∧ x.2 = output := by
  induction xs using List.reverseRecOn with
  | nil => exact ⟨nofun, fun ⟨_, h, _⟩ => (not_isLast_nil h).elim⟩
  | append_singleton xs x ih =>
    simp only [recorded_concat, isLast_concat]
    by_cases h : x.1.same q
    · rw [PathMap.get?_insert_of_same h]
      simp [h]
    · rw [PathMap.get?_insert_of_not_same (Bool.eq_false_iff.mpr h), ih]
      simp [h]

theorem get?_recorded_eq_none_iff :
    (recorded xs).get? q = none ↔ ∀ x ∈ xs, x.1.same q = false := by
  induction xs using List.reverseRecOn with
  | nil => exact ⟨fun _ _ h => (List.not_mem_nil h).elim, fun _ => rfl⟩
  | append_singleton xs x ih =>
    rw [recorded_concat, List.forall_mem_append, List.forall_mem_singleton]
    by_cases h : x.1.same q
    · rw [PathMap.get?_insert_of_same h]
      simp [h]
    · rw [PathMap.get?_insert_of_not_same (Bool.eq_false_iff.mpr h), ih]
      simp [h]

/-- No source has two entries. -/
theorem apart_recorded (xs : List (Path × Path)) : (recorded xs).Apart := by
  induction xs using List.reverseRecOn with
  | nil => exact List.Pairwise.nil
  | append_singleton xs x ih =>
    rw [recorded_concat]
    exact ih.insert x.1 x.2

/-- An entry is under a path as it was recorded. -/
theorem exists_recorded {e : Path × Path} (he : e ∈ (recorded xs).entries) :
    ∃ x ∈ xs, x.1 = e.1 := by
  induction xs using List.reverseRecOn generalizing e with
  | nil => cases he
  | append_singleton xs x ih =>
    rw [recorded_concat] at he
    rcases PathMap.key_of_mem_put he with hkey | ⟨f, hf, hkey⟩
    · exact ⟨x, by simp, hkey.symm⟩
    · obtain ⟨y, hy, hyf⟩ := ih hf
      exact ⟨y, List.mem_append_left _ hy, hyf.trans hkey⟩

theorem classes_recorded (xs : List (Path × Path)) :
    PathMap.classes (recorded xs).entries = PathMap.classes xs := by
  ext k
  constructor
  · rintro ⟨e, he, rfl⟩
    obtain ⟨x, hx, hkey⟩ := exists_recorded he
    exact ⟨x, hx, congrArg _ hkey⟩
  · rintro ⟨x, hx, rfl⟩
    have hfound : (recorded xs).get? x.1 ≠ none := fun h => by
      have hsame := get?_recorded_eq_none_iff.mp h x hx
      rw [Path.same_refl] at hsame
      cases hsame
    obtain ⟨o, ho⟩ := Option.ne_none_iff_exists'.mp hfound
    obtain ⟨e, he, hsame, -⟩ := PathMap.mem_of_get?_eq_some ho
    exact ⟨e, he, Path.class_eq_iff.mpr hsame⟩

theorem isEmpty_recorded : (recorded xs).isEmpty ↔ xs = [] := by
  rcases xs.eq_nil_or_concat with rfl | ⟨xs, x, rfl⟩
  · exact ⟨fun _ => rfl, fun _ => rfl⟩
  · rw [List.concat_eq_append, recorded_concat, PathMap.isEmpty_insert]
    simp

/-- What the cache holds after outputs have been recorded.

A source has the output that was recorded last under one of its spellings, and none if there was no
such recording. One more recording answers with what the source had, and changes nothing for other
paths. There are as many entries as sources that can be told apart, and none only if nothing was
recorded. Sources that can be told apart differ in the root, in a `.` that begins them, or in their
moves; they are those that are not to be respelled into one another. -/
structure RecordingLaw (xs : List (Path × Path)) : Prop where
  some_iff : ∀ q o, (recorded xs).get? q = some o ↔
    ∃ x, IsLast (fun x : Path × Path => x.1.same q) xs x ∧ x.2 = o
  none_iff : ∀ q, (recorded xs).get? q = none ↔ ∀ x ∈ xs, x.1.same q = false
  answer : ∀ source o, ((recorded xs).record source o).1 = (recorded xs).get? source
  replaced : ∀ source o q, source.same q →
    ((recorded xs).record source o).2.get? q = some o
  frame : ∀ source o q, source.same q = false →
    ((recorded xs).record source o).2.get? q = (recorded xs).get? q
  size : (recorded xs).size = (PathMap.classes xs).ncard
  isEmpty : (recorded xs).isEmpty ↔ xs = []
  same_iff : ∀ p q : Path, p.same q ↔
    p.isAbsolute = q.isAbsolute ∧ p.isDotted = q.isDotted ∧ p.moves = q.moves
  spelled : ∀ p q : Path, p.same q ↔ Relation.EqvGen Path.Sheds p.chars q.chars

theorem recording_law (xs : List (Path × Path)) : RecordingLaw xs where
  some_iff _ _ := get?_recorded
  none_iff _ := get?_recorded_eq_none_iff
  answer _ _ := by rw [record_eq]
  replaced _ _ _ h := by rw [record_eq, PathMap.get?_insert_of_same h]
  frame _ _ _ h := by rw [record_eq, PathMap.get?_insert_of_not_same h]
  size := by rw [(apart_recorded xs).size_eq, classes_recorded]
  isEmpty := isEmpty_recorded
  same_iff _ _ := Path.same_iff_start_moves
  spelled _ _ := Path.same_iff_eqvGen

/-- The spellings of a source share an entry. -/
example : ((recorded [("/p/a.ts", "/o/a.js"), ("./a.ts", "/o/b.js")]).record "/p//./a.ts/."
    "/o/c.js").1 = some ("/o/a.js" : Path) := by
  decide

end OutputCache
end LoadHook
