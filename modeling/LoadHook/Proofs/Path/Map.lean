import LoadHook.Path.Map

/-!
# Spellings of a key

Component equality is an equivalence, and a map does not tell apart the spellings of a key.
-/
namespace LoadHook

namespace Path

variable {p q r : Path}

theorem same_iff : p.same q ↔ p.components = q.components := by simp [same]

@[simp] theorem same_refl (p : Path) : p.same p := by simp [same]

theorem same_symm (h : p.same q) : q.same p := same_iff.mpr (same_iff.mp h).symm

theorem same_trans (h : p.same q) (k : q.same r) : p.same r :=
  same_iff.mpr ((same_iff.mp h).trans (same_iff.mp k))

end Path

namespace PathMap

variable {α : Type} {m : PathMap α} {p q : Path} {a b : α}

theorem get?_congr (h : p.same q) : m.get? p = m.get? q := by
  obtain ⟨entries⟩ := m
  simp only [get?]
  induction entries with
  | nil => rfl
  | cons e rest ih =>
    have he : e.1.same p = e.1.same q := by simp [Path.same, Path.same_iff.mp h]
    simp only [find, he, ih]

/-- What is found after an insertion is what was inserted, or was there before. -/
theorem get?_insert_eq_some (h : (m.insert p a).get? q = some b) :
    p.same q ∧ b = a ∨ p.same q = false ∧ m.get? q = some b := by
  by_cases hs : p.same q
  · rw [get?_insert_of_same hs, Option.some.injEq] at h
    exact .inl ⟨hs, h.symm⟩
  · have hs := Bool.eq_false_iff.mpr hs
    rw [get?_insert_of_not_same hs] at h
    exact .inr ⟨hs, h⟩

/-- What is found after a removal was there before, under another path. -/
theorem get?_erase_eq_some (h : (m.erase p).get? q = some b) :
    p.same q = false ∧ m.get? q = some b := by
  by_cases hs : p.same q
  · rw [get?_erase_of_same hs] at h
    cases h
  · have hs := Bool.eq_false_iff.mpr hs
    rw [get?_erase_of_not_same hs] at h
    exact ⟨hs, h⟩

theorem get?_erase_of_none (h : m.get? p = none) : (m.erase q).get? p = none := by
  by_cases hs : q.same p
  · exact get?_erase_of_same hs
  · exact (get?_erase_of_not_same (Bool.eq_false_iff.mpr hs)).trans h

/-- What is found is the value of an entry under a spelling of the path. -/
theorem mem_of_get?_eq_some (h : m.get? p = some a) : ∃ e ∈ m.entries, e.1.same p ∧ e.2 = a := by
  obtain ⟨entries⟩ := m
  simp only [get?] at h
  induction entries with
  | nil => cases h
  | cons e rest ih =>
    unfold find at h
    split at h
    · next hs => exact ⟨e, List.mem_cons_self, hs, Option.some.inj h⟩
    · obtain ⟨f, hf, hs⟩ := ih h
      exact ⟨f, List.mem_cons_of_mem e hf, hs⟩

/-- An insertion adds no key but its own. -/
theorem key_of_mem_put {es : List (Path × α)} {e : Path × α} (h : e ∈ put p a es) :
    e.1 = p ∨ ∃ f ∈ es, f.1 = e.1 := by
  induction es with
  | nil =>
    rw [List.mem_singleton.mp h]
    exact .inl rfl
  | cons f rest ih =>
    unfold put at h
    split at h
    · rcases List.mem_cons.mp h with rfl | h
      · exact .inr ⟨f, List.mem_cons_self, rfl⟩
      · exact .inr ⟨e, List.mem_cons_of_mem f h, rfl⟩
    · rcases List.mem_cons.mp h with rfl | h
      · exact .inr ⟨f, List.mem_cons_self, rfl⟩
      · rcases ih h with hp | ⟨g, hg, hge⟩
        · exact .inl hp
        · exact .inr ⟨g, List.mem_cons_of_mem f hg, hge⟩

/-- No two entries of a map are under spellings of one path. -/
def Apart (m : PathMap α) : Prop := m.entries.Pairwise fun e f => e.1.same f.1 = false

theorem Apart.insert (h : m.Apart) (p : Path) (a : α) : (m.insert p a).Apart := by
  obtain ⟨entries⟩ := m
  simp only [Apart, PathMap.insert] at h ⊢
  induction entries with
  | nil => exact List.pairwise_singleton _ _
  | cons e rest ih =>
    obtain ⟨hhead, hrest⟩ := List.pairwise_cons.mp h
    unfold put
    split
    · exact List.pairwise_cons.mpr ⟨hhead, hrest⟩
    · next hs =>
      refine List.pairwise_cons.mpr ⟨fun f hf => ?_, ih hrest⟩
      rcases key_of_mem_put hf with hp | ⟨g, hg, hgf⟩
      · rw [hp]
        exact Bool.eq_false_iff.mpr hs
      · rw [← hgf]
        exact hhead g hg

theorem Apart.erase (h : m.Apart) (p : Path) : (m.erase p).Apart := h.filter _

/-- A path without value is no spelling of one with a value. -/
theorem not_same_of_get? (hp : m.get? p = none) (hq : m.get? q = some a) : p.same q = false := by
  refine Bool.eq_false_iff.mpr fun hs => ?_
  rw [get?_congr hs, hq] at hp
  cases hp

end PathMap
end LoadHook
