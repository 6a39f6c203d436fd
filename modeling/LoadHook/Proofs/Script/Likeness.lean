import Mathlib.Data.List.Forall2
import Mathlib.Order.Interval.Finset.Nat
import LoadHook.Proofs.Script.Ground

/-!
# Data that are alike

Two values are alike if they show the same data, whichever objects of whichever heaps they are made
of. Objects are compared as trees: what is shared in one heap may stand twice in the other, so
likeness outlasts that a module is loaded anew and its exports are made again. It is told in levels,
an object being one level above what it holds, and so nothing that is alike to anything holds
itself.

A heap is seen from outside of the objects that are still being made: what is alike has nothing to
do with them, and stays alike whatever becomes of them.
-/
namespace LoadHook.Script

/-! ## Views -/

/-- A heap with the objects in it that are still being made. -/
structure View where
  heap : Heap
  mine : List Ref

namespace View

variable {a a' a'' : View} {r : Ref}

/-- An object is made above the heap that a host starts with, and its making has ended. -/
structure Sees (a : View) (r : Ref) : Prop where
  above : ground.objects.size ≤ r
  inside : r < a.heap.objects.size
  made : r ∉ a.mine

/-- What is seen in a view is the same in another one. -/
def Keeps (a a' : View) : Prop :=
  ∀ r, a.Sees r → a'.Sees r ∧ a'.heap.object r = a.heap.object r

theorem Keeps.refl (a : View) : a.Keeps a := fun _ hr => ⟨hr, rfl⟩

theorem Keeps.trans (h : a.Keeps a') (k : a'.Keeps a'') : a.Keeps a'' := fun r hr =>
  ⟨(k r (h r hr).1).1, (k r (h r hr).1).2.trans (h r hr).2⟩

/-- A heap may be extended, and more objects of the extension may be in the making. -/
theorem keeps_of_extends {h h' : Heap} {mine mine' : List Ref} (e : h.Extends h')
    (hm : ∀ r ∈ mine', r ∈ mine ∨ h.objects.size ≤ r) : Keeps ⟨h, mine⟩ ⟨h', mine'⟩ := by
  refine fun r hr => ⟨⟨hr.above, Nat.lt_of_lt_of_le hr.inside e.size, fun hmine => ?_⟩,
    e.object r hr.inside⟩
  exact (hm r hmine).elim hr.made fun hle => Nat.not_lt_of_le hle hr.inside

/-- The making of objects may end. -/
theorem keeps_of_subset {h : Heap} {mine mine' : List Ref} (hm : mine' ⊆ mine) :
    Keeps ⟨h, mine⟩ ⟨h, mine'⟩ :=
  fun _ hr => ⟨⟨hr.above, hr.inside, fun hmine => hr.made (hm hmine)⟩, rfl⟩

end View

/-! ## Objects that are alike -/

/-- Two properties as assignment makes them, whose values are alike. -/
structure Property.Like (V : Value → Value → Prop) (p p' : Property) : Prop where
  enumerable : p.enumerable = p'.enumerable
  configurable : p.configurable = p'.configurable
  content : ∃ v v', p.content = .data v true ∧ p'.content = .data v' true ∧ V v v'

/-- Two properties under one key. -/
def EntryLike (V : Value → Value → Prop) (e e' : Key × Property) : Prop :=
  e.1 = e'.1 ∧ e.2.Like V e'.2

/-- What stands above two objects: nothing, the same object at the top, or two objects that are
alike. -/
inductive Over (V : Value → Value → Prop) : Option Ref → Option Ref → Prop
  | nothing : Over V none none
  | top {r : Ref} : IsTop r → Over V (some r) (some r)
  | like {r r' : Ref} : V (.obj r) (.obj r') → Over V (some r) (some r')

/-- The length of an array is a number. -/
def Object.Measured (o : Object) : Prop :=
  o.isArray → ∃ x e c, findKey lengthKey o.props = some ⟨.data (.num x) true, e, c⟩

/-- Two plain objects, or two arrays, with the same keys and with values that are alike. -/
structure Object.Like (V : Value → Value → Prop) (o o' : Object) : Prop where
  data : o.isData
  kind : o'.kind = o.kind
  extensible : o.extensible ∧ o'.extensible
  proto : Over V o.proto o'.proto
  props : List.Forall₂ (EntryLike V) o.props o'.props
  measured : o.Measured

/-- Two values are alike, at most so many levels deep. -/
def Alike (a b : View) : Nat → Value → Value → Prop
  | 0, v, v' => v.ref? = none ∧ v' = v
  | n + 1, v, v' => Alike a b n v v' ∨ ∃ r r', v = .obj r ∧ v' = .obj r' ∧ a.Sees r ∧ b.Sees r' ∧
      Object.Like (Alike a b n) (a.heap.object r) (b.heap.object r')

/-- Values that are no objects are related to themselves only. -/
structure Exact (V : Value → Value → Prop) : Prop where
  eq : ∀ v v', V v v' → v.ref? = none → v' = v
  refl : ∀ v, v.ref? = none → V v v
  objects : ∀ v v', V v v' → v'.ref?.isSome = v.ref?.isSome

variable {V V' : Value → Value → Prop} {a a' b b' c : View} {n m : Nat} {v v' v'' : Value}
  {r r' s : Ref} {o o' o'' : Object} {p p' p'' : Property}

namespace Property.Like

theorem mono (h : p.Like V p') (hV : ∀ v v', V v v' → V' v v') : p.Like V' p' where
  enumerable := h.enumerable
  configurable := h.configurable
  content := by
    obtain ⟨v, v', hv, hv', hlike⟩ := h.content
    exact ⟨v, v', hv, hv', hV v v' hlike⟩

theorem symm (h : p.Like V p') (hV : ∀ v v', V v v' → V' v' v) : p'.Like V' p where
  enumerable := h.enumerable.symm
  configurable := h.configurable.symm
  content := by
    obtain ⟨v, v', hv, hv', hlike⟩ := h.content
    exact ⟨v', v, hv', hv, hV v v' hlike⟩

end Property.Like

/-- What is found under a key in two lists of properties that are alike. -/
theorem findKey_like {props props' : List (Key × Property)}
    (h : List.Forall₂ (EntryLike V) props props') (k : Key) :
    (findKey k props = none ∧ findKey k props' = none) ∨
      ∃ p p', findKey k props = some p ∧ findKey k props' = some p' ∧ p.Like V p' := by
  induction h with
  | nil => exact .inl ⟨rfl, rfl⟩
  | @cons e e' rest rest' he _ ih =>
    obtain ⟨n, p⟩ := e
    obtain ⟨n', p'⟩ := e'
    obtain ⟨rfl, hp⟩ := he
    by_cases hn : n == k
    · exact .inr ⟨p, p', by simp only [findKey, hn, if_true],
        by simp only [findKey, hn, if_true], hp⟩
    · simpa only [findKey, hn, Bool.false_eq_true, if_false] using ih

namespace Over

variable {s s' : Option Ref}

theorem mono (h : Over V s s') (hV : ∀ v v', V v v' → V' v v') : Over V' s s' := by
  cases h with
  | nothing => exact .nothing
  | top hr => exact .top hr
  | like h => exact .like (hV _ _ h)

theorem symm (h : Over V s s') (hV : ∀ v v', V v v' → V' v' v) : Over V' s' s := by
  cases h with
  | nothing => exact .nothing
  | top hr => exact .top hr
  | like h => exact .like (hV _ _ h)

theorem trans {W U : Value → Value → Prop} {s'' : Option Ref} (h : Over V s s')
    (k : Over W s' s'') (hV : ∀ v v' v'', V v v' → W v' v'' → U v v'')
    (htop : ∀ r v, IsTop r → ¬ V v (.obj r) ∧ ¬ W (.obj r) v) : Over U s s'' := by
  cases h with
  | nothing =>
    cases k
    exact .nothing
  | top hr =>
    cases k with
    | top => exact .top hr
    | like k => exact absurd k (htop _ _ hr).2
  | like h =>
    cases k with
    | top hr => exact absurd h (htop _ _ hr).1
    | like k => exact .like (hV _ _ _ h k)

end Over

theorem EntryLike.trans {W U : Value → Value → Prop} {e e' e'' : Key × Property}
    (h : EntryLike V e e') (k : EntryLike W e' e'')
    (hV : ∀ v v' v'', V v v' → W v' v'' → U v v'') : EntryLike U e e'' := by
  refine ⟨h.1.trans k.1, h.2.enumerable.trans k.2.enumerable,
    h.2.configurable.trans k.2.configurable, ?_⟩
  obtain ⟨v, v', hv, hv', hlike⟩ := h.2.content
  obtain ⟨u, v'', hu, hv'', hlike'⟩ := k.2.content
  cases hv'.symm.trans hu
  exact ⟨v, v'', hv, hv'', hV _ _ _ hlike hlike'⟩

theorem entriesLike_trans {W U : Value → Value → Prop} {es es' es'' : List (Key × Property)}
    (h : List.Forall₂ (EntryLike V) es es') (k : List.Forall₂ (EntryLike W) es' es'')
    (hV : ∀ v v' v'', V v v' → W v' v'' → U v v'') : List.Forall₂ (EntryLike U) es es'' := by
  induction h generalizing es'' with
  | nil =>
    cases k
    exact .nil
  | cons he _ ih =>
    cases k with
    | cons ke krest => exact .cons (he.trans ke hV) (ih krest)

namespace Object.Like

theorem data_right (h : o.Like V o') : o'.isData := by
  rw [isData, h.kind]
  exact h.data

theorem isArray_eq (h : o.Like V o') : o'.isArray = o.isArray := by
  rw [isArray, isArray, h.kind]

/-- The lengths of arrays that are alike are one number. -/
theorem length_eq (h : o.Like V o') (hV : Exact V) (harray : o.isArray) :
    ∃ x e c e' c', findKey lengthKey o.props = some ⟨.data (.num x) true, e, c⟩ ∧
      findKey lengthKey o'.props = some ⟨.data (.num x) true, e', c'⟩ := by
  obtain ⟨x, e, c, hx⟩ := h.measured harray
  rcases findKey_like h.props lengthKey with ⟨hnone, -⟩ | ⟨p, p', hp, hp', hlike⟩
  · cases hnone.symm.trans hx
  · cases hp.symm.trans hx
    obtain ⟨content, e', c'⟩ := p'
    obtain ⟨v, v', hv, rfl, hvalues⟩ := hlike.content
    cases hv
    cases hV.eq _ _ hvalues rfl
    exact ⟨x, e, c, e', c', hp, hp'⟩

theorem measured_right (h : o.Like V o') (hV : Exact V) : o'.Measured := by
  intro harray
  obtain ⟨x, -, -, e', c', -, hx'⟩ := h.length_eq hV (h.isArray_eq ▸ harray)
  exact ⟨x, e', c', hx'⟩

theorem mono (h : o.Like V o') (hV : ∀ v v', V v v' → V' v v') : o.Like V' o' where
  data := h.data
  kind := h.kind
  extensible := h.extensible
  proto := h.proto.mono hV
  props := h.props.imp fun _ _ he => ⟨he.1, he.2.mono hV⟩
  measured := h.measured

end Object.Like

/-! ## Likeness of values -/

namespace Alike

theorem succ (h : Alike a b n v v') : Alike a b (n + 1) v v' := .inl h

theorem mono (h : Alike a b n v v') (hnm : n ≤ m) : Alike a b m v v' := by
  induction hnm with
  | refl => exact h
  | step _ ih => exact ih.succ

theorem of_ref?_eq_none (hv : v.ref? = none) (n : Nat) : Alike a b n v v :=
  mono (n := 0) ⟨hv, rfl⟩ (Nat.zero_le n)

/-- A value that is no object is alike to itself only. -/
theorem eq_of_ref?_eq_none (h : Alike a b n v v') (hv : v.ref? = none) : v' = v := by
  induction n with
  | zero => exact h.2
  | succ n ih =>
    rcases h with h | ⟨r, r', rfl, -⟩
    · exact ih h
    · cases hv

/-- An object is alike to an object, and what they hold is alike one level below. -/
theorem of_obj (h : Alike a b n (.obj r) v') : ∃ k r', n = k + 1 ∧ v' = .obj r' ∧
    a.Sees r ∧ b.Sees r' ∧ Object.Like (Alike a b k) (a.heap.object r) (b.heap.object r') := by
  induction n with
  | zero => cases h.1
  | succ n ih =>
    rcases h with h | ⟨r, r', hv, rfl, hr, hr', hlike⟩
    · obtain ⟨k, r', rfl, hv', hr, hr', hlike⟩ := ih h
      exact ⟨k + 1, r', rfl, hv', hr, hr', hlike.mono fun _ _ h => h.succ⟩
    · cases hv
      exact ⟨n, r', rfl, rfl, hr, hr', hlike⟩

/-- An object is alike to objects only. -/
theorem isSome_ref? (h : Alike a b n v v') : v'.ref?.isSome = v.ref?.isSome := by
  cases v with
  | obj r =>
    obtain ⟨-, r', -, rfl, -⟩ := of_obj h
    rfl
  | _ => rw [h.eq_of_ref?_eq_none rfl]

theorem exact (a b : View) (n : Nat) : Exact (Alike a b n) where
  eq _ _ h := h.eq_of_ref?_eq_none
  refl _ hv := of_ref?_eq_none hv n
  objects _ _ h := h.isSome_ref?

/-- The objects at the top are no data. -/
theorem not_top (hr : IsTop r) : ¬ Alike a b n (.obj r) v := fun h => by
  obtain ⟨-, -, -, -, hsees, -⟩ := of_obj h
  exact Nat.not_lt_of_le hsees.above hr.lt_size

theorem symm (h : Alike a b n v v') : Alike b a n v' v := by
  induction n generalizing v v' with
  | zero =>
    obtain ⟨hv, rfl⟩ := h
    exact ⟨hv, rfl⟩
  | succ n ih =>
    rcases h with h | ⟨r, r', rfl, rfl, hr, hr', hlike⟩
    · exact (ih h).succ
    · refine .inr ⟨r', r, rfl, rfl, hr', hr, ?_⟩
      refine ⟨hlike.data_right, hlike.kind.symm, hlike.extensible.symm,
        hlike.proto.symm fun _ _ => ih, ?props, ?measured⟩
      case props =>
        exact (hlike.props.imp fun _ _ he => ⟨he.1.symm, he.2.symm fun _ _ => ih⟩).flip
      case measured => exact hlike.measured_right (exact a b n)

/-- Likeness is passed on, no deeper than the first value goes. -/
theorem trans (h : Alike a b n v v') (k : Alike b c m v' v'') : Alike a c n v v'' := by
  induction n generalizing m v v' v'' with
  | zero =>
    obtain ⟨hv, rfl⟩ := h
    exact ⟨hv, k.eq_of_ref?_eq_none hv⟩
  | succ n ih =>
    rcases h with h | ⟨r, r', rfl, rfl, hr, hr', hlike⟩
    · exact (ih h k).succ
    · obtain ⟨m, r'', rfl, rfl, -, hr'', hlike'⟩ := k.of_obj
      refine .inr ⟨r, r'', rfl, rfl, hr, hr'', hlike.data, hlike'.kind.trans hlike.kind,
        ⟨hlike.extensible.1, hlike'.extensible.2⟩, ?proto, ?props, hlike.measured⟩
      case proto =>
        exact hlike.proto.trans hlike'.proto (fun _ _ _ h k => ih h k) fun _ _ hr =>
          ⟨fun h => not_top hr h.symm, not_top hr⟩
      case props => exact entriesLike_trans hlike.props hlike'.props fun _ _ _ h k => ih h k

/-- A value is alike to what something alike to it is alike to. -/
theorem of_common {u : Value} (h : Alike a c n v u) (k : Alike b c m v' u) : Alike a b n v v' :=
  h.trans k.symm

/-- Whatever is alike to something is alike to itself. -/
theorem left (h : Alike a b n v v') : Alike a a n v v := h.trans h.symm

theorem right (h : Alike a b n v v') : Alike b b n v' v' := h.symm.left

/-- What two values show goes equally deep. -/
theorem of_left (h : Alike a b n v v') (k : Alike a a m v v) : Alike a b m v v' := k.trans h

theorem of_right (h : Alike a b n v v') (k : Alike b b m v' v') : Alike a b m v v' :=
  (k.trans h.symm).symm

theorem keeps_left (h : Alike a b n v v') (ha : a.Keeps a') : Alike a' b n v v' := by
  induction n generalizing v v' with
  | zero => exact h
  | succ n ih =>
    rcases h with h | ⟨r, r', rfl, rfl, hr, hr', hlike⟩
    · exact (ih h).succ
    · refine .inr ⟨r, r', rfl, rfl, (ha r hr).1, hr', ?_⟩
      rw [(ha r hr).2]
      exact hlike.mono fun _ _ => ih

/-- What is alike stays alike while the heaps go on. -/
theorem keeps (h : Alike a b n v v') (ha : a.Keeps a') (hb : b.Keeps b') : Alike a' b' n v v' :=
  ((h.keeps_left ha).symm.keeps_left hb).symm

end Alike
end LoadHook.Script
