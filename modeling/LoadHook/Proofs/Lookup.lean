/-!
# Looking things up in lists

Entries with keys are kept in lists, the first entry of a key being the one that counts. Where
things are only ever added at the end it is the last one of its kind that counts.
-/
namespace LoadHook

/-- The last element of a list with a property. -/
def IsLast {α : Type} (P : α → Prop) (xs : List α) (a : α) : Prop :=
  ∃ before after, xs = before ++ a :: after ∧ P a ∧ ∀ b ∈ after, ¬P b

theorem not_isLast_nil {α : Type} {P : α → Prop} {a : α} : ¬IsLast P [] a := by
  rintro ⟨before, after, h, -⟩
  exact List.append_ne_nil_of_right_ne_nil before (List.cons_ne_nil _ _) h.symm

/-- One more element is the last one if it has the property, and leaves the last one if not. -/
theorem isLast_concat {α : Type} {P : α → Prop} [DecidablePred P] {xs : List α} {x a : α} :
    IsLast P (xs ++ [x]) a ↔ if P x then a = x else IsLast P xs a := by
  constructor
  · rintro ⟨before, after, h, ha, hlast⟩
    rcases after.eq_nil_or_concat with rfl | ⟨after, y, rfl⟩
    · obtain ⟨-, hxa⟩ := List.append_inj' h rfl
      cases hxa
      rw [if_pos ha]
    · rw [List.concat_eq_append, ← List.cons_append, ← List.append_assoc] at h
      rw [List.concat_eq_append] at hlast
      obtain ⟨hxs, hxy⟩ := List.append_inj' h rfl
      cases hxy
      rw [if_neg (hlast x (List.mem_append_right _ List.mem_cons_self))]
      exact ⟨before, after, hxs, ha, fun b hb => hlast b (List.mem_append_left _ hb)⟩
  · intro h
    split at h
    · next hx =>
      subst h
      exact ⟨xs, [], rfl, hx, nofun⟩
    · next hx =>
      obtain ⟨before, after, rfl, ha, hlast⟩ := h
      refine ⟨before, after ++ [x], by simp, ha, fun b hb => ?_⟩
      rcases List.mem_append.mp hb with hb | hb
      · exact hlast b hb
      · cases List.mem_singleton.mp hb
        exact hx

namespace Lookup

variable {α β : Type} [BEq α] [LawfulBEq α]

theorem lookup_cons [DecidableEq α] (c : α × β) (l : List (α × β)) (a : α) :
    (c :: l).lookup a = if c.1 = a then some c.2 else l.lookup a := by
  rw [List.lookup_cons]
  by_cases h : c.1 = a
  · simp [h]
  · have ha : (a == c.1) = false := beq_eq_false_iff_ne.mpr (Ne.symm h)
    rw [ha, if_neg h]

/-- The keys that stay keep their values. -/
theorem lookup_filter (keep : α → Bool) (l : List (α × β)) (a : α) :
    (l.filter fun c => keep c.1).lookup a = if keep a then l.lookup a else none := by
  induction l with
  | nil => simp
  | cons c rest ih =>
    obtain ⟨b, v⟩ := c
    by_cases hb : a = b
    · subst hb
      cases hkeep : keep a with
      | true => simp [hkeep]
      | false =>
        rw [hkeep] at ih
        simpa [hkeep] using ih
    · have hne : (a == b) = false := beq_eq_false_iff_ne.mpr hb
      have htail : List.lookup a ((b, v) :: rest) = List.lookup a rest := by
        simp [List.lookup_cons, hne]
      rw [htail, ← ih, List.filter_cons]
      split
      · simp [List.lookup_cons, hne]
      · rfl

end Lookup
end LoadHook
