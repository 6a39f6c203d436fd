import LoadHook.Proofs.Script.Storing
import LoadHook.Script.BuiltIn.Json

/-!
# Data that are read

Reading a text makes new objects, the outermost one last. Two heaps get objects that are alike, and
what they hold is alike before the outermost objects are there, so that these may be objects that
are still being made.
-/
namespace LoadHook.Script

open Document

variable {a b : View} {n m : Nat} {v v' : Value} {h h' g g' : Heap} {o o' : Object}

/-- The likeness of values at some level. -/
def View.Like (a b : View) (v v' : Value) : Prop := ∃ n, Alike a b n v v'

/-- Two values with the heaps in which they have been made: the same value that is no object, or two
new objects that are alike before they are seen themselves. -/
inductive Made (a b : View) : Value × Heap → Value × Heap → Prop
  | plain {v : Value} {h h' : Heap} : v.ref? = none → a.heap.Extends h → b.heap.Extends h' →
      Made a b (v, h) (v, h')
  | object {g g' : Heap} {o o' : Object} {n : Nat} : a.heap.Extends g → b.heap.Extends g' →
      o.Like (Alike ⟨g, a.mine⟩ ⟨g', b.mine⟩ n) o' →
      Made a b (.obj g.objects.size, (g.addObject o).2) (.obj g'.objects.size, (g'.addObject o').2)

/-- The objects that are being made are in the heap, and no part of the ground. -/
def View.Bounded (a : View) : Prop :=
  ∀ r ∈ a.mine, ground.objects.size ≤ r ∧ r < a.heap.objects.size

/-- A view of a heap that has been extended. -/
theorem View.keeps_withHeap (e : a.heap.Extends h) : a.Keeps ⟨h, a.mine⟩ :=
  View.keeps_of_extends e fun _ => .inl

/-- What is so of all pairs at some level is so of them at one level. -/
theorem exists_level_of_forall₂ {α β : Type} {R : Nat → α → β → Prop}
    (hR : ∀ n m x y, n ≤ m → R n x y → R m x y) {xs : List α} {ys : List β}
    (h : List.Forall₂ (fun x y => ∃ n, R n x y) xs ys) : ∃ n, List.Forall₂ (R n) xs ys := by
  induction h with
  | nil => exact ⟨0, .nil⟩
  | cons hx _ ih =>
    obtain ⟨n, hx⟩ := hx
    obtain ⟨m, hrest⟩ := ih
    refine ⟨max n m, .cons (hR _ _ _ _ (Nat.le_max_left n m) hx) ?_⟩
    exact hrest.imp fun x y => hR _ _ x y (Nat.le_max_right n m)

theorem View.Like.keeps {a' b' : View} (h : a.Like b v v') (ha : a.Keeps a') (hb : b.Keeps b') :
    a'.Like b' v v' := h.imp fun _ h => h.keeps ha hb

namespace Made

variable {x x' : Value × Heap}

theorem extends_left (h : Made a b x x') : a.heap.Extends x.2 := by
  cases h with
  | plain _ e _ => exact e
  | object e _ _ => exact e.trans (.addObject _ _)

theorem extends_right (h : Made a b x x') : b.heap.Extends x'.2 := by
  cases h with
  | plain _ _ e => exact e
  | object _ e _ => exact e.trans (.addObject _ _)

/-- A new object is seen where it is not taken for one that is still being made. -/
theorem sees_addObject (hg : ground.Extends a.heap) (ha : a.Bounded) (e : a.heap.Extends g)
    (o : Object) : View.Sees ⟨(g.addObject o).2, a.mine⟩ g.objects.size where
  above := Nat.le_trans hg.size e.size
  inside := by simp
  made hr := Nat.not_lt_of_le e.size (ha _ hr).2

/-- What is made is alike. -/
theorem like (h : Made a b (v, g) (v', g')) (ha : ground.Extends a.heap)
    (hb : ground.Extends b.heap) (hma : a.Bounded) (hmb : b.Bounded) :
    View.Like ⟨g, a.mine⟩ ⟨g', b.mine⟩ v v' := by
  cases h with
  | plain hv => exact ⟨0, hv, rfl⟩
  | @object g g' o o' n e e' hlike =>
    refine ⟨n + 1, .inr ⟨_, _, rfl, rfl, sees_addObject ha hma e o,
      sees_addObject hb hmb e' o', ?_⟩⟩
    rw [Heap.object_addObject_self, Heap.object_addObject_self]
    exact hlike.mono fun _ _ h => h.keeps (View.keeps_withHeap (a := ⟨g, a.mine⟩) (.addObject g o))
      (View.keeps_withHeap (a := ⟨g', b.mine⟩) (.addObject g' o'))

end Made

/-! ## Objects as they are made of data -/

/-- Elements of new arrays that are alike. -/
theorem elements_like {V : Value → Value → Prop} {vs vs' : List Value}
    (h : List.Forall₂ V vs vs') (i : Nat) :
    List.Forall₂ (EntryLike V)
      (((vs.map some).zipIdx i).filterMap fun (v, i) => v.map fun v => (natKey i, Property.plain v))
      (((vs'.map some).zipIdx i).filterMap fun (v, i) => v.map fun v =>
        (natKey i, Property.plain v)) := by
  induction h generalizing i with
  | nil => exact .nil
  | cons hv _ ih => exact .cons ⟨rfl, .plain hv⟩ (ih (i + 1))

/-- Properties of new plain objects that are alike. -/
theorem members_like {V : Value → Value → Prop} {ps ps' : List (Key × Value)}
    (h : List.Forall₂ (fun p p' => p.1 = p'.1 ∧ V p.2 p'.2) ps ps')
    {all all' : List (Key × Property)} (hall : List.Forall₂ (EntryLike V) all all') :
    List.Forall₂ (EntryLike V) (ps.foldl (fun all p => putKey p.1 (.plain p.2) all) all)
      (ps'.foldl (fun all p => putKey p.1 (.plain p.2) all) all') := by
  induction h generalizing all all' with
  | nil => exact hall
  | @cons p p' _ _ hp _ ih =>
    obtain ⟨k, v⟩ := p
    obtain ⟨k', v'⟩ := p'
    obtain ⟨rfl, hv⟩ := hp
    exact ih (putKey_like hall k (.plain hv))

/-- A new array of values. -/
def Object.arrayOf (vs : List Value) : Object :=
  ⟨.array, some arrayTop, true,
    (lengthKey, ⟨.data (.nat (vs.map some).length) true, false, false⟩) ::
    (vs.map some).zipIdx.filterMap fun (v, i) => v.map fun v => (natKey i, Property.plain v)⟩

/-- A new plain object with members, of which the last of each name counts. -/
def Object.plainOf (ps : List (Key × Value)) : Object :=
  ⟨.plain, some objectTop, true, ps.foldl (fun all p => putKey p.1 (.plain p.2) all) []⟩

theorem like_arrayOf {V : Value → Value → Prop} (hV : Exact V) {vs vs' : List Value}
    (h : List.Forall₂ V vs vs') : (Object.arrayOf vs).Like V (.arrayOf vs') where
  data := rfl
  kind := rfl
  extensible := ⟨rfl, rfl⟩
  proto := .top (.inr rfl)
  props := by
    refine .cons ⟨rfl, rfl, rfl, _, _, rfl, rfl, ?_⟩ (elements_like h 0)
    rw [List.length_map, List.length_map, h.length_eq]
    exact hV.refl _ rfl
  measured _ := ⟨_, _, _, by simp only [Object.arrayOf, findKey, beq_self_eq_true, if_true]; rfl⟩

theorem like_plainOf {V : Value → Value → Prop} {ps ps' : List (Key × Value)}
    (h : List.Forall₂ (fun p p' => p.1 = p'.1 ∧ V p.2 p'.2) ps ps') :
    (Object.plainOf ps).Like V (.plainOf ps') where
  data := rfl
  kind := rfl
  extensible := ⟨rfl, rfl⟩
  proto := .top (.inl rfl)
  props := members_like h .nil
  measured harray := by cases harray

section Grounded

variable (hg : ground.Extends h)
include hg

theorem addArray_eq (vs : List Value) :
    h.addArray (h.realm Host.homeRealm).arrayProto (vs.map some) = h.addObject (.arrayOf vs) := by
  rw [hg.realm]
  rfl

theorem addMembers_eq (ps : List (Key × Value)) :
    h.addObject ⟨.plain, some (h.realm Host.homeRealm).objectProto, true,
      ps.foldl (fun all p => putKey p.1 (.plain p.2) all) []⟩ = h.addObject (.plainOf ps) := by
  rw [hg.realm]
  rfl

end Grounded

/-! ## Reading -/

/-- Values of items as they have been made one after another. -/
structure ItemsMade (a b : View) (x x' : List Value × Heap) : Prop where
  left : a.heap.Extends x.2
  right : b.heap.Extends x'.2
  items : List.Forall₂ (View.Like ⟨x.2, a.mine⟩ ⟨x'.2, b.mine⟩) x.1 x'.1

/-- Two members of the same name with values that are alike. -/
def MemberLike (a b : View) (n : Nat) (p p' : Key × Value) : Prop :=
  p.1 = p'.1 ∧ Alike a b n p.2 p'.2

/-- Values of members as they have been made one after another. -/
structure MembersMade (a b : View) (x x' : List (Key × Value) × Heap) : Prop where
  left : a.heap.Extends x.2
  right : b.heap.Extends x'.2
  members : List.Forall₂ (fun p p' => ∃ n, MemberLike ⟨x.2, a.mine⟩ ⟨x'.2, b.mine⟩ n p p') x.1 x'.1

theorem View.Bounded.extends (ha : a.Bounded) (e : a.heap.Extends h) :
    View.Bounded ⟨h, a.mine⟩ := fun r hr => ⟨(ha r hr).1, Nat.lt_of_lt_of_le (ha r hr).2 e.size⟩

mutual

/-- The values of data in two heaps are alike. -/
theorem toValue_made (a b : View) (ha : ground.Extends a.heap) (hb : ground.Extends b.heap)
    (hma : a.Bounded) (hmb : b.Bounded) :
    (d : Document) → Made a b (toValue Host.homeRealm d a.heap) (toValue Host.homeRealm d b.heap)
  | .null => .plain rfl (.refl _) (.refl _)
  | .bool _ => .plain rfl (.refl _) (.refl _)
  | .num _ => .plain rfl (.refl _) (.refl _)
  | .str _ => .plain rfl (.refl _) (.refl _)
  | .arr items => by
    have hitems := itemValues_made a b ha hb hma hmb items
    obtain ⟨n, hn⟩ := exists_level_of_forall₂ (fun _ _ _ _ hle h => h.mono hle) hitems.items
    simp only [toValue, addArray_eq (ha.trans hitems.left), addArray_eq (hb.trans hitems.right)]
    exact .object hitems.left hitems.right (like_arrayOf (Alike.exact _ _ n) hn)
  | .obj members => by
    have hmembers := memberValues_made a b ha hb hma hmb members
    obtain ⟨n, hn⟩ := exists_level_of_forall₂ (fun _ _ _ _ hle h => ⟨h.1, h.2.mono hle⟩)
      hmembers.members
    simp only [toValue, addMembers_eq (ha.trans hmembers.left),
      addMembers_eq (hb.trans hmembers.right)]
    exact .object hmembers.left hmembers.right (like_plainOf hn)

/-- The values of items in two heaps are alike. -/
theorem itemValues_made (a b : View) (ha : ground.Extends a.heap) (hb : ground.Extends b.heap)
    (hma : a.Bounded) (hmb : b.Bounded) :
    (items : List Document) → ItemsMade a b (itemValues Host.homeRealm items a.heap)
      (itemValues Host.homeRealm items b.heap)
  | [] => ⟨.refl _, .refl _, .nil⟩
  | d :: rest => by
    have hd := toValue_made a b ha hb hma hmb d
    have hrest := itemValues_made ⟨_, a.mine⟩ ⟨_, b.mine⟩ (ha.trans hd.extends_left)
      (hb.trans hd.extends_right) (hma.extends hd.extends_left) (hmb.extends hd.extends_right) rest
    simp only [itemValues]
    refine ⟨hd.extends_left.trans hrest.left, hd.extends_right.trans hrest.right,
      .cons ?_ hrest.items⟩
    exact (hd.like ha hb hma hmb).keeps (View.keeps_withHeap (a := ⟨_, a.mine⟩) hrest.left)
      (View.keeps_withHeap (a := ⟨_, b.mine⟩) hrest.right)

/-- The values of members in two heaps are alike. -/
theorem memberValues_made (a b : View) (ha : ground.Extends a.heap) (hb : ground.Extends b.heap)
    (hma : a.Bounded) (hmb : b.Bounded) :
    (members : List (Key × Document)) → MembersMade a b
      (memberValues Host.homeRealm members a.heap) (memberValues Host.homeRealm members b.heap)
  | [] => ⟨.refl _, .refl _, .nil⟩
  | (k, d) :: rest => by
    have hd := toValue_made a b ha hb hma hmb d
    have hrest := memberValues_made ⟨_, a.mine⟩ ⟨_, b.mine⟩ (ha.trans hd.extends_left)
      (hb.trans hd.extends_right) (hma.extends hd.extends_left) (hmb.extends hd.extends_right) rest
    simp only [memberValues]
    refine ⟨hd.extends_left.trans hrest.left, hd.extends_right.trans hrest.right,
      .cons ?_ hrest.members⟩
    obtain ⟨n, hn⟩ := (hd.like ha hb hma hmb).keeps
      (View.keeps_withHeap (a := ⟨_, a.mine⟩) hrest.left)
      (View.keeps_withHeap (a := ⟨_, b.mine⟩) hrest.right)
    exact ⟨n, rfl, hn⟩

end

/-- A text is read alike in two heaps, or it is no JSON text in either of them. -/
theorem parseJson_like (ha : ground.Extends a.heap) (hb : ground.Extends b.heap)
    (hma : a.Bounded) (hmb : b.Bounded) (us : Text.Utf16) :
    (∃ x x', BuiltIn.parseJson Host.homeRealm us a.heap = .done (.ok x.1, x.2) ∧
      BuiltIn.parseJson Host.homeRealm us b.heap = .done (.ok x'.1, x'.2) ∧ Made a b x x') ∨
    ∀ h, BuiltIn.parseJson Host.homeRealm us h =
      raise Host.homeRealm .syntactic "unexpected token" h := by
  unfold BuiltIn.parseJson
  cases Document.parse? us with
  | none => exact .inr fun _ => rfl
  | some d => exact .inl ⟨_, _, rfl, rfl, toValue_made a b ha hb hma hmb d⟩

end LoadHook.Script
