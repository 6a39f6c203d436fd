import LoadHook.Proofs.Script.Likeness

/-!
# Looking things up in data

The objects that stand above data end after so many steps as there are objects in the heap. So what
is found under a key in objects that are alike is alike, whatever else the heaps hold, and a value
is never found inside itself.
-/
namespace LoadHook.Script

variable {a b : View} {n m f f' : Nat} {v v' : Value} {r r' s : Ref} {k : Key} {h : Heap}

/-! ## Levels -/

/-- An object is data of exactly so many levels. -/
def Level (a : View) (n : Nat) (r : Ref) : Prop :=
  Alike a a (n + 1) (.obj r) (.obj r) ∧ ¬ Alike a a n (.obj r) (.obj r)

theorem Level.unique (hn : Level a n r) (hm : Level a m r) : n = m := by
  refine Nat.le_antisymm (Nat.le_of_not_lt fun h => hn.2 (hm.1.mono h)) ?_
  exact Nat.le_of_not_lt fun h => hm.2 (hn.1.mono h)

theorem exists_level (h : Alike a a n (.obj r) (.obj r)) : ∃ m < n, Level a m r := by
  induction n with
  | zero => cases h.1
  | succ n ih =>
    by_cases hn : Alike a a n (.obj r) (.obj r)
    · obtain ⟨m, hm, hlevel⟩ := ih hn
      exact ⟨m, Nat.lt_succ_of_lt hm, hlevel⟩
    · exact ⟨n, Nat.lt_succ_self n, h, hn⟩

/-- Where there is an object of a level, there is one of the level below. -/
theorem Level.below (h : Level a (n + 1) r) : ∃ s, Level a n s := by
  by_contra hnone
  rw [not_exists] at hnone
  have hdown {v v' : Value} (hv : Alike a a (n + 1) v v') : Alike a a n v v' := by
    refine hv.of_left ?_
    cases v with
    | obj s =>
      have hs := hv.left
      obtain ⟨m, hm, hlevel⟩ := exists_level hs
      have hne : m ≠ n := fun e => hnone s (e ▸ hlevel)
      exact hlevel.1.mono (Nat.lt_of_le_of_ne (Nat.le_of_lt_succ hm) hne)
    | _ => exact .of_ref?_eq_none rfl n
  obtain ⟨k, r', hk, hr', hsees, hsees', hlike⟩ := h.1.of_obj
  cases hk
  cases hr'
  exact h.2 (.inr ⟨r, r, rfl, rfl, hsees, hsees', hlike.mono fun _ _ => hdown⟩)

theorem Level.exists_of_le (h : Level a n r) (hm : m ≤ n) : ∃ s, Level a m s := by
  induction n generalizing r with
  | zero =>
    rw [Nat.le_zero.mp hm]
    exact ⟨r, h⟩
  | succ n ih =>
    rcases Nat.le_succ_iff.mp hm with hm | rfl
    · obtain ⟨s, hs⟩ := h.below
      exact ih hs hm
    · exact ⟨r, h⟩

theorem Level.sees (h : Level a n r) : a.Sees r := by
  obtain ⟨-, -, -, -, hsees, -⟩ := h.1.of_obj
  exact hsees

/-- There are no more levels than objects. -/
theorem Level.lt_size (h : Level a n r) :
    n + ground.objects.size < a.heap.objects.size := by
  classical
  choose s hs using fun m : Fin (n + 1) => h.exists_of_le (Nat.le_of_lt_succ m.2)
  have hmaps : Set.MapsTo s (Finset.univ : Finset (Fin (n + 1)))
      (Finset.Ico ground.objects.size a.heap.objects.size) := fun m _ =>
    Finset.mem_coe.mpr (Finset.mem_Ico.mpr ⟨(hs m).sees.above, (hs m).sees.inside⟩)
  have hinj : Set.InjOn s (Finset.univ : Finset (Fin (n + 1))) := fun m _ m' _ e =>
    Fin.ext ((hs m).unique (e ▸ hs m'))
  have hcard := Finset.card_le_card_of_injOn s hmaps hinj
  rw [Finset.card_fin, Nat.card_Ico] at hcard
  omega

/-- So many levels a heap has room for. -/
def View.room (a : View) : Nat := a.heap.objects.size - ground.objects.size

/-- What is alike is alike within the room that there is for levels. -/
theorem Alike.fit (h : Alike a b n v v') : Alike a b (min a.room b.room) v v' := by
  have hleft {a b : View} {n : Nat} {v v' : Value} (h : Alike a b n v v') :
      Alike a b a.room v v' := by
    cases v with
    | obj r =>
      obtain ⟨m, -, hlevel⟩ := exists_level h.left
      refine h.of_left (hlevel.1.mono ?_)
      have hlt := hlevel.lt_size
      unfold View.room
      omega
    | _ => exact h.of_left (.of_ref?_eq_none rfl _)
  rcases Nat.le_total a.room b.room with hle | hle
  · rw [Nat.min_eq_left hle]
    exact hleft h
  · rw [Nat.min_eq_right hle]
    exact (hleft h.symm).symm

/-! ## Finding properties -/

/-- What is found under a key in two places: nothing, the same property at the top, or two
properties that are alike. -/
inductive Found (V : Value → Value → Prop) (k : Key) : Option Property → Option Property → Prop
  | nothing : Found V k none none
  | top {r : Ref} {p : Property} : IsTop r → foundAbove r k = some p → Found V k (some p) (some p)
  | like {p p' : Property} : p.Like V p' → Found V k (some p) (some p')

theorem Found.mono {V V' : Value → Value → Prop} {p p' : Option Property} (h : Found V k p p')
    (hV : ∀ v v', V v v' → V' v v') : Found V' k p p' := by
  cases h with
  | nothing => exact .nothing
  | top hr hp => exact .top hr hp
  | like h => exact .like (h.mono hV)

theorem found_top {V : Value → Value → Prop} (hr : IsTop r) (k : Key) :
    Found V k (foundAbove r k) (foundAbove r k) := by
  cases hp : foundAbove r k with
  | none => exact .nothing
  | some p => exact .top hr hp

section Grounded

variable (ha : ground.Extends a.heap) (hb : ground.Extends b.heap)
include ha hb

/-- In an object something is found, or it is looked for above. -/
theorem findFrom_of_above (k : Key)
    (hlike : Object.Like (Alike a b n) (a.heap.object r) (b.heap.object r'))
    (hf : n + 2 ≤ f) (hf' : n + 2 ≤ f')
    (hover : ∀ s s', Alike a b n (.obj s) (.obj s') →
      Found (Alike a b n) k (a.heap.findFrom f s k) (b.heap.findFrom f' s' k)) :
    Found (Alike a b n) k (a.heap.findFrom (f + 1) r k) (b.heap.findFrom (f' + 1) r' k) := by
  simp only [Heap.findFrom, Object.own_of_isData hlike.data, Object.own_of_isData hlike.data_right]
  rcases findKey_like hlike.props k with ⟨hnone, hnone'⟩ | ⟨p, p', hp, hp', hprop⟩
  · rw [hnone, hnone']
    have habove := hlike.proto
    generalize (a.heap.object r).proto = q at habove
    generalize (b.heap.object r').proto = q' at habove
    cases habove with
    | nothing => exact .nothing
    | top hr =>
      obtain ⟨f, rfl⟩ := Nat.exists_eq_add_of_le' (Nat.le_of_add_left_le hf)
      obtain ⟨f', rfl⟩ := Nat.exists_eq_add_of_le' (Nat.le_of_add_left_le hf')
      simp only [findFrom_top ha hr, findFrom_top hb hr]
      exact found_top hr k
    | like hover' => exact hover _ _ hover'
  · rw [hp, hp']
    exact .like hprop

theorem findFrom_like (k : Key) (h : Alike a b n (.obj r) (.obj r')) (hf : n + 2 ≤ f)
    (hf' : n + 2 ≤ f') :
    Found (Alike a b n) k (a.heap.findFrom f r k) (b.heap.findFrom f' r' k) := by
  induction n generalizing f f' r r' with
  | zero => cases h.1
  | succ n ih =>
    obtain ⟨m, s, hm, hs, -, -, hlike⟩ := h.of_obj
    cases hm
    cases hs
    obtain ⟨f, rfl⟩ := Nat.exists_eq_add_of_le' (Nat.le_of_add_left_le hf)
    obtain ⟨f', rfl⟩ := Nat.exists_eq_add_of_le' (Nat.le_of_add_left_le hf')
    have hroom : n + 2 ≤ f + 1 ∧ n + 2 ≤ f' + 1 := by omega
    exact (findFrom_of_above ha hb k hlike hroom.1 hroom.2 fun t t' ht =>
      ih ht hroom.1 hroom.2).mono fun _ _ h => h.succ

/-- Under a key the same is found in objects that are alike, in whichever heap. -/
theorem find_like (k : Key)
    (hlike : Object.Like (Alike a b n) (a.heap.object r) (b.heap.object r')) :
    Found (Alike a b n) k (a.heap.find r k) (b.heap.find r' k) := by
  -- no more levels are needed than there is room for, so the fuel is enough
  have hfit := hlike.mono fun _ _ h => (Nat.le_total n (min a.room b.room)).elim
    (fun hle => (Nat.min_eq_left hle).symm ▸ h) fun hle => (Nat.min_eq_right hle).symm ▸ h.fit
  have hroom : min n (min a.room b.room) + 2 ≤ a.heap.objects.size ∧
      min n (min a.room b.room) + 2 ≤ b.heap.objects.size := by
    have hg := two_le_size_ground
    have hga := ha.size
    have hgb := hb.size
    unfold View.room
    omega
  have hfound := findFrom_of_above ha hb k hfit hroom.1 hroom.2 fun s s' hs =>
    findFrom_like ha hb k hs hroom.1 hroom.2
  exact hfound.mono fun _ _ h => h.mono (Nat.min_le_left _ _)

end Grounded

section Grounded

variable (ha : ground.Extends a.heap)
include ha

/-- Nothing that is still being made stands above data. -/
theorem isAbove_like (h : Alike a a n (.obj r) (.obj r)) (hs : ground.objects.size ≤ s)
    (hsees : ¬ a.Sees s) (f : Nat) : a.heap.isAbove f s r = false := by
  induction n generalizing f r with
  | zero => cases h.1
  | succ n ih =>
    cases f with
    | zero => rfl
    | succ f =>
      obtain ⟨m, r', hm, hr', -, -, hlike⟩ := h.of_obj
      cases hm
      cases hr'
      have habove := hlike.proto
      simp only [Heap.isAbove]
      generalize (a.heap.object r).proto = q at habove
      cases habove with
      | nothing => rfl
      | @top t ht =>
        have hne : (t == s) = false :=
          beq_eq_false_iff_ne.mpr (Nat.ne_of_lt (Nat.lt_of_lt_of_le ht.lt_size hs))
        simp only [hne, isAbove_top ha ht hs, Bool.or_self]
      | @like t _ ht =>
        obtain ⟨-, -, -, -, ht', -⟩ := ht.of_obj
        have hne : (t == s) = false := beq_eq_false_iff_ne.mpr fun e => hsees (e ▸ ht')
        simp only [hne, ih ht, Bool.or_self]

end Grounded
end LoadHook.Script
