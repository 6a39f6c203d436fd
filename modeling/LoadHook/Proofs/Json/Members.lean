import LoadHook.Json.Value
import LoadHook.Proofs.Lookup

/-!
# Members in order

The members of an object stand in the order of their names, each name once, and stay so when one is
put among them. Two objects are the same if they have the same member for every name; so what is
done to members can be told name by name.
-/
namespace LoadHook.Json

variable {α : Type} {name key : String} {value : α} {members more : List (String × α)}
  {m : String × α}

/-- Members in order, each name once. -/
abbrev InOrder (members : List (String × α)) : Prop := members.Pairwise fun m n => m.1 < n.1

theorem lookup_cons (key : String) (m : String × α) (rest : List (String × α)) :
    lookup key (m :: rest) = if m.1 = key then some m.2 else lookup key rest :=
  Lookup.lookup_cons m rest key

theorem mem_insert (h : m ∈ insert name value members) : m = (name, value) ∨ m ∈ members := by
  induction members with
  | nil => exact .inl (List.mem_singleton.mp h)
  | cons k rest ih =>
    rw [insert] at h
    split at h
    · exact (List.mem_cons.mp h).imp_right (List.mem_cons_of_mem k)
    · split at h
      · exact List.mem_cons.mp h
      · rcases List.mem_cons.mp h with rfl | h
        · exact .inr List.mem_cons_self
        · exact (ih h).imp_right (List.mem_cons_of_mem k)

theorem inOrder_insert (name : String) (value : α) (h : InOrder members) :
    InOrder (insert name value members) := by
  induction members with
  | nil => exact List.pairwise_singleton _ _
  | cons k rest ih =>
    obtain ⟨hfirst, hrest⟩ := List.pairwise_cons.mp h
    rw [insert]
    split
    · next heq =>
      subst heq
      exact List.pairwise_cons.mpr ⟨hfirst, hrest⟩
    · next hne =>
      split
      · next hlt =>
        refine List.pairwise_cons.mpr ⟨fun n hn => ?_, h⟩
        rcases List.mem_cons.mp hn with rfl | hn
        · exact hlt
        · exact String.lt_trans hlt (hfirst n hn)
      · next hnot =>
        refine List.pairwise_cons.mpr ⟨fun n hn => ?_, ih hrest⟩
        rcases mem_insert hn with rfl | hn
        · exact Std.lt_of_le_of_ne (String.not_lt.mp hnot) (Ne.symm hne)
        · exact hfirst n hn

theorem lookup_insert (name : String) (value : α) (members : List (String × α)) (key : String) :
    lookup key (insert name value members) =
      if key = name then some value else lookup key members := by
  split
  · next heq =>
    subst heq
    exact lookup_insert_self key value members
  · next hne =>
    have hskip (rest : List (String × α)) :
        lookup key ((name, value) :: rest) = lookup key rest := by
      rw [lookup_cons, if_neg (Ne.symm hne)]
    induction members with
    | nil => exact hskip []
    | cons k rest ih =>
      rw [insert]
      split
      · next heq =>
        rw [hskip, lookup_cons, ← heq, if_neg (Ne.symm hne)]
      · split
        · exact hskip _
        · rw [lookup_cons, lookup_cons, ih]

/-- Names that stand behind a name are other ones. -/
theorem lookup_eq_none_of_lt (h : ∀ m ∈ members, name < m.1) : lookup name members = none := by
  rw [lookup, List.lookup_eq_none_iff]
  exact fun m hm => bne_iff_ne.mpr fun e => String.lt_irrefl _ (e ▸ h m hm)

theorem mem_of_lookup (h : lookup name members = some value) : (name, value) ∈ members := by
  induction members with
  | nil => cases h
  | cons k rest ih =>
    rw [lookup_cons] at h
    split at h
    · next heq =>
      cases h
      exact heq ▸ List.mem_cons_self
    · exact List.mem_cons_of_mem k (ih h)

/-- Two objects with the same member for every name are the same. -/
theorem InOrder.ext (h : InOrder members) (hmore : InOrder more)
    (hlookup : ∀ key, lookup key members = lookup key more) : members = more := by
  induction members generalizing more with
  | nil =>
    cases more with
    | nil => rfl
    | cons k rest =>
      have hnone := hlookup k.1
      rw [lookup_cons, if_pos rfl] at hnone
      cases hnone
  | cons m rest ih =>
    obtain ⟨hfirst, hrest⟩ := List.pairwise_cons.mp h
    cases more with
    | nil =>
      have hnone := hlookup m.1
      rw [lookup_cons, if_pos rfl] at hnone
      cases hnone
    | cons k others =>
      obtain ⟨hleast, hothers⟩ := List.pairwise_cons.mp hmore
      have hm : lookup m.1 (k :: others) = some m.2 := by
        rw [← hlookup, lookup_cons, if_pos rfl]
      have hk : lookup k.1 (m :: rest) = some k.2 := by
        rw [hlookup, lookup_cons, if_pos rfl]
      -- each of the two first members would stand behind the other
      have hsame : m = k := by
        rcases List.mem_cons.mp (mem_of_lookup hm) with hm | hm
        · exact hm
        rcases List.mem_cons.mp (mem_of_lookup hk) with hk | hk
        · exact hk.symm
        exact absurd (hleast _ hm) (String.lt_asymm (hfirst _ hk))
      subst hsame
      refine congrArg (m :: ·) (ih hrest hothers fun key => ?_)
      have hkey := hlookup key
      rw [lookup_cons, lookup_cons] at hkey
      split at hkey
      · next heq =>
        subst heq
        rw [lookup_eq_none_of_lt hfirst, lookup_eq_none_of_lt hleast]
      · exact hkey

/-! ## Two objects together -/

/-- The members of two objects together; of a name in both the second counts. -/
def union (members more : List (String × α)) : List (String × α) :=
  more.foldl (fun all m => insert m.1 m.2 all) members

theorem inOrder_union (h : InOrder members) (more : List (String × α)) :
    InOrder (union members more) := by
  induction more generalizing members with
  | nil => exact h
  | cons m rest ih => exact ih (inOrder_insert m.1 m.2 h)

theorem lookup_union (members : List (String × α)) (hmore : InOrder more) (key : String) :
    lookup key (union members more) = (lookup key more).or (lookup key members) := by
  induction more generalizing members with
  | nil => rfl
  | cons m rest ih =>
    obtain ⟨hfirst, hrest⟩ := List.pairwise_cons.mp hmore
    have hunion : union members (m :: rest) = union (insert m.1 m.2 members) rest := rfl
    rw [hunion, ih (insert m.1 m.2 members) hrest, lookup_insert]
    by_cases heq : key = m.1
    · subst heq
      rw [if_pos rfl, lookup_eq_none_of_lt hfirst, lookup_cons, if_pos rfl]
      rfl
    · rw [if_neg heq, lookup_cons, if_neg (Ne.symm heq)]

end LoadHook.Json
