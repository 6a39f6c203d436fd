import LoadHook.Proofs.Journal.Basic

/-!
# What a moment knows of its past

Properties of a moment that depend on what has happened before it, and the loads that are in
progress after a piece of a journal. A handler runs from its dispatch until its module is loaded or
removed. Meanwhile other handlers may be dispatched: so a journal tells at each of its moments which
handlers run, one inside the other.
-/
namespace LoadHook.Journal

open Script (RealmRef Ref)

section Past

variable {P Q : Journal → Moment → Prop} {past j k : Journal} {x : Moment}

/-- Each moment of a journal has a property together with all moments before it. -/
def Every (P : Journal → Moment → Prop) : Journal → Journal → Prop
  | _, [] => True
  | past, x :: rest => P past x ∧ Every P (past ++ [x]) rest

@[simp] theorem every_nil : Every P past [] := trivial
@[simp] theorem every_cons : Every P past (x :: j) ↔ P past x ∧ Every P (past ++ [x]) j := .rfl

@[simp] theorem every_append : Every P past (j ++ k) ↔ Every P past j ∧ Every P (past ++ j) k := by
  induction j generalizing past with
  | nil => simp
  | cons x j ih => simp [ih, and_assoc]

/-- What every moment has can be told of each place of the journal. -/
theorem every_iff : Every P past j ↔ ∀ a x b, j = a ++ x :: b → P (past ++ a) x := by
  refine ⟨fun h a x b e => ?_, fun h => ?_⟩
  · subst e
    exact (every_append.mp h).2.1
  · induction j generalizing past with
    | nil => exact every_nil
    | cons x j ih =>
      refine ⟨by simpa using h [] x j rfl, ih fun a y b e => ?_⟩
      simpa using h (x :: a) y b (by rw [e]; rfl)

/-- A place in one journal after another is a place in one of the two. -/
theorem split_append {a b : Journal} (he : j ++ k = a ++ x :: b) :
    (∃ b', j = a ++ x :: b' ∧ b = b' ++ k) ∨ ∃ a', k = a' ++ x :: b := by
  rcases List.append_eq_append_iff.mp he with ⟨a', -, hk⟩ | ⟨b', hj, hk⟩
  · exact .inr ⟨a', hk⟩
  · cases b' with
    | nil => exact .inr ⟨[], hk.symm⟩
    | cons y b' =>
      obtain ⟨rfl, rfl⟩ := List.cons.inj hk
      exact .inl ⟨b', hj, rfl⟩

/-! ## Loads in progress -/

/-- The loads in progress after a moment: a call begins one, and a return ends the last. -/
def opened (open_ : List Path) (x : Moment) : List Path :=
  match x.what with
  | .called _ p => p :: open_
  | .returned _ => open_.tail
  | _ => open_

/-- The loads in progress after a journal, the last one first. -/
def inProgress (j : Journal) : List Path := j.foldl opened []

@[simp] theorem inProgress_append (j k : Journal) :
    inProgress (j ++ k) = k.foldl opened (inProgress j) := List.foldl_append

/-- A piece of a journal after which as many loads are in progress as before. -/
def Balanced (j : Journal) : Prop := ∀ open_, j.foldl opened open_ = open_

theorem Balanced.inProgress (h : Balanced j) (past : Journal) :
    inProgress (past ++ j) = Journal.inProgress past := by rw [inProgress_append, h]

theorem Balanced.append (hj : Balanced j) (hk : Balanced k) : Balanced (j ++ k) := by
  intro open_
  rw [List.foldl_append, hj, hk]

theorem balanced_bracket {realm : RealmRef} {p : Path} {h h' : Host} {r : Except Failure Ref}
    (hj : Balanced j) : Balanced (bracket realm p h r j h') := by
  intro open_
  simp [bracket, List.foldl_append, opened, hj (p :: open_)]

end Past

/-! ## Handlers inside handlers -/

section Handlers

variable {j k : Journal} {x y : Moment} {open_ : List Path} {m n : Nat} {p : Path}

/-- The handlers that run after a moment: a dispatch begins one, and the last one ends where its
module is loaded or removed. -/
def handling (open_ : List Path) (x : Moment) : List Path :=
  match x.what with
  | .dispatched p _ => p :: open_
  | .completed _ _ => open_.tail
  | .dropped _ => open_.tail
  | _ => open_

/-- How many handlers run inside each other at most in a journal, where some run before it. -/
def deepest (open_ : List Path) : Journal → Nat
  | [] => open_.length
  | x :: rest => max open_.length (deepest (handling open_ x) rest)

theorem length_le_deepest : open_.length ≤ deepest open_ j := by
  cases j with
  | nil => exact Nat.le_refl _
  | cons x rest => exact Nat.le_max_left _ _

theorem deepest_append :
    deepest open_ (j ++ k) = max (deepest open_ j) (deepest (j.foldl handling open_) k) := by
  induction j generalizing open_ with
  | nil => exact (Nat.max_eq_right length_le_deepest).symm
  | cons x rest ih =>
    rw [List.cons_append, deepest, ih, ← Nat.max_assoc]
    rfl

/-- A piece of a journal ends the handlers that it begins, and no more of them run inside each
other than a limit allows. -/
structure Nested (limit : Nat) (j : Journal) : Prop where
  ends : ∀ open_, j.foldl handling open_ = open_
  within : ∀ open_, deepest open_ j ≤ open_.length + limit

namespace Nested

theorem nil : Nested n [] := ⟨fun _ => rfl, fun _ => Nat.le_add_right _ n⟩

theorem mono (hj : Nested m j) (hmn : m ≤ n) : Nested n j where
  ends := hj.ends
  within open_ := Nat.le_trans (hj.within open_) (Nat.add_le_add_left hmn _)

theorem append (hj : Nested n j) (hk : Nested n k) : Nested n (j ++ k) where
  ends open_ := by rw [List.foldl_append, hj.ends, hk.ends]
  within open_ := by
    rw [deepest_append, hj.ends]
    exact Nat.max_le.mpr ⟨hj.within open_, hk.within open_⟩

/-- A moment at which no handler begins or ends. -/
theorem single (hx : ∀ open_, handling open_ x = open_) : Nested n [x] where
  ends := hx
  within open_ := by
    rw [deepest, deepest, hx, Nat.max_self]
    exact Nat.le_add_right _ n

/-- A handler runs around what happens until its end. -/
theorem handler (hj : Nested n j) (hx : ∀ open_, handling open_ x = p :: open_)
    (hy : ∀ open_, handling open_ y = open_.tail) : Nested (n + 1) (x :: (j ++ [y])) where
  ends open_ := by
    rw [List.foldl_cons, hx, List.foldl_append, hj.ends]
    exact hy (p :: open_)
  within open_ := by
    have hinner := hj.within (p :: open_)
    rw [List.length_cons] at hinner
    have hend : deepest (p :: open_) [y] ≤ open_.length + 1 := by
      rw [deepest, deepest, hy]
      exact Nat.max_le.mpr ⟨Nat.le_refl _, Nat.le_succ _⟩
    rw [deepest, hx, deepest_append, hj.ends]
    omega

end Nested

end Handlers

end LoadHook.Journal
