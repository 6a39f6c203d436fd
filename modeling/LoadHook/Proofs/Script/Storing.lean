import LoadHook.Proofs.Script.Likeness

/-!
# Storing values in data

Assignment to an object that shows data makes a property or replaces its value, and keeps the length
of an array above its elements. Where the objects and the values are alike, they are alike
afterwards.
-/
namespace LoadHook.Script

variable {V : Value → Value → Prop} {o o' : Object} {p p' : Property} {v v' : Value} {k l : Key}
  {props props' : List (Key × Property)}

/-- A property as assignment makes it. -/
theorem Property.Like.plain (hv : V v v') : (Property.plain v).Like V (.plain v') :=
  ⟨rfl, rfl, v, v', rfl, rfl, hv⟩

/-- A property whose value is replaced. -/
theorem Property.Like.replace (hp : p.Like V p') (hv : V v v') :
    (⟨.data v true, p.enumerable, p.configurable⟩ : Property).Like V
      ⟨.data v' true, p'.enumerable, p'.configurable⟩ :=
  ⟨hp.enumerable, hp.configurable, v, v', rfl, rfl, hv⟩

theorem putKey_like (h : List.Forall₂ (EntryLike V) props props') (k : Key) (hp : p.Like V p') :
    List.Forall₂ (EntryLike V) (putKey k p props) (putKey k p' props') := by
  induction h with
  | nil => exact .cons ⟨rfl, hp⟩ .nil
  | @cons e e' rest rest' he hrest ih =>
    obtain ⟨n, q⟩ := e
    obtain ⟨n', q'⟩ := e'
    obtain ⟨rfl, hq⟩ := he
    by_cases hn : n == k
    · simp only [putKey, hn, if_true]
      exact .cons ⟨rfl, hp⟩ hrest
    · simp only [putKey, hn, Bool.false_eq_true, if_false]
      exact .cons ⟨rfl, hq⟩ ih

/-- What two objects hold under a key. -/
theorem Object.Like.own (h : o.Like V o') (k : Key) :
    (o.own k = none ∧ o'.own k = none) ∨
      ∃ p p', o.own k = some p ∧ o'.own k = some p' ∧ p.Like V p' := by
  rw [own_of_isData h.data, own_of_isData h.data_right]
  exact findKey_like h.props k

/-- Putting a property, the length of an array only if it is a number. -/
theorem Object.Like.put (h : o.Like V o') (k : Key) (hp : p.Like V p')
    (hk : k = lengthKey → o.isArray → ∃ x, p.content = .data (.num x) true) :
    (o.put k p).Like V (o'.put k p') where
  data := h.data
  kind := h.kind
  extensible := h.extensible
  proto := h.proto
  props := putKey_like h.props k hp
  measured := by
    intro harray
    by_cases hl : lengthKey = k
    · obtain ⟨x, hx⟩ := hk hl.symm harray
      obtain ⟨content, e, c⟩ := p
      cases hx
      exact ⟨x, e, c, by rw [hl]; exact findKey_putKey_self k _ _⟩
    · obtain ⟨x, e, c, hx⟩ := h.measured harray
      exact ⟨x, e, c, (findKey_putKey_of_ne hl _ _).trans hx⟩

/-- Defining the value of a property that is there replaces it. -/
theorem defineNamed_of_some (hp : o.own k = some p) (hw : ∃ u, p.content = .data u true)
    (v : Value) : o.defineNamed k { value := some v } =
      some (o.put k ⟨.data v true, p.enumerable, p.configurable⟩) := by
  obtain ⟨content, e, c⟩ := p
  obtain ⟨u, rfl⟩ := hw
  simp [Object.defineNamed, hp, Descriptor.apply, Descriptor.isAccessor]

/-- Defining a property that is not there adds it. -/
theorem defineNamed_of_none (hk : o.own k = none) (ho : o.extensible) (v : Value) :
    o.defineNamed k (.ofProperty (.plain v)) = some (o.put k (.plain v)) := by
  simp [Object.defineNamed, hk, ho, Descriptor.ofProperty, Descriptor.fresh, Descriptor.isAccessor,
    Property.plain]

theorem index?_lengthKey : index? lengthKey = none := by decide

/-- A key that a filter lets pass is found after it. -/
theorem findKey_filter {f : Key × Property → Bool} (hf : ∀ p, f (k, p)) :
    findKey k (props.filter f) = findKey k props := by
  induction props with
  | nil => rfl
  | cons e rest ih =>
    obtain ⟨n, p⟩ := e
    by_cases hn : n = k
    · subst hn
      simp [hf, findKey]
    · by_cases he : f (n, p) <;> simp [he, findKey, hn, ih]

theorem filterMap_congr {α β : Type} {R : α → α → Prop} {f : α → Option β} {l l' : List α}
    (h : List.Forall₂ R l l') (hf : ∀ a a', R a a' → f a = f a') :
    l.filterMap f = l'.filterMap f := by
  induction h with
  | nil => rfl
  | cons ha _ ih => simp only [List.filterMap_cons, hf _ _ ha, ih]

/-- An element of an array whose length can be changed is defined together with the length. -/
theorem Object.define_of_index {d : Descriptor} {i n : Nat} (ho : o.isArray)
    (hi : index? k = some i) (hn : o.arrayLength = (n, true)) :
    o.define k d = (o.defineNamed k d).map fun o =>
      if n ≤ i then o.put lengthKey ⟨.data (.nat (i + 1)) true, false, false⟩ else o := by
  unfold Object.isArray at ho
  unfold Object.define
  split
  · simp [hi, hn]
  · simp_all

/-- Whether a key is no index, or one below a length. -/
def isBelow (n : Nat) (k : Key) : Bool :=
  match index? k with
  | some i => decide (i < n)
  | none => true

theorem Object.cutTo_fst (o : Object) (n : Nat) :
    (o.cutTo n).1 = { o with props := o.props.filter fun q => isBelow (o.cutTo n).2 q.1 } := rfl

/-- An array is cut to a length, but for elements that cannot be removed. -/
theorem Object.Like.cutTo (h : o.Like V o') (n : Nat) :
    (o.cutTo n).2 = (o'.cutTo n).2 ∧ (o.cutTo n).1.Like V (o'.cutTo n).1 := by
  have hreached : (o.cutTo n).2 = (o'.cutTo n).2 := by
    unfold Object.cutTo
    refine congrArg (List.foldl max n) (filterMap_congr h.props fun e e' he => ?_)
    rw [he.1, he.2.configurable]
  refine ⟨hreached, h.data, h.kind, h.extensible, h.proto, ?props, fun harray => ?measured⟩
  case props =>
    rw [Object.cutTo_fst, Object.cutTo_fst, ← hreached]
    exact List.rel_filter (fun {e e'} he => by simp only [he.1]) h.props
  case measured =>
    obtain ⟨x, e, c, hx⟩ := h.measured harray
    refine ⟨x, e, c, (findKey_filter fun p => ?_).trans hx⟩
    simp only [index?_lengthKey]

section Exact

variable (hV : Exact V)
include hV

/-- Arrays that are alike are equally long, and their lengths can be changed. -/
theorem Object.Like.arrayLength (h : o.Like V o') (ho : o.isArray) :
    ∃ n, o.arrayLength = (n, true) ∧ o'.arrayLength = (n, true) := by
  obtain ⟨x, _, _, _, _, hx, hx'⟩ := h.length_eq hV ho
  exact ⟨(Numeric.truncate x).toNat, by simp only [Object.arrayLength, hx],
    by simp only [Object.arrayLength, hx']⟩

/-- Whatever is put, the length is kept above the elements. -/
theorem Object.Like.define (h : o.Like V o') (k : Key) {d d' : Descriptor}
    (hk : k = lengthKey → o.isArray = false) (hp : p.Like V p')
    (hd : o.defineNamed k d = some (o.put k p)) (hd' : o'.defineNamed k d' = some (o'.put k p')) :
    ∃ q q', o.define k d = some q ∧ o'.define k d' = some q' ∧ q.Like V q' := by
  have hput : (o.put k p).Like V (o'.put k p') := h.put k hp fun he harray => by
    rw [hk he] at harray
    cases harray
  by_cases hordinary : o.Ordinary k
  · have hordinary' : o'.Ordinary k := by rwa [Object.Ordinary, h.isArray_eq]
    exact ⟨_, _, (hordinary.define_eq d).trans hd, (hordinary'.define_eq d').trans hd', hput⟩
  · -- an element of an array
    have harray : o.isArray := by
      by_contra hnot
      exact hordinary (.inl (Bool.eq_false_iff.mpr hnot))
    have hne : k ≠ lengthKey := fun he => by
      rw [hk he] at harray
      cases harray
    obtain ⟨i, hi⟩ : ∃ i, index? k = some i :=
      Option.ne_none_iff_exists'.mp fun hnone => hordinary (.inr ⟨hne, hnone⟩)
    obtain ⟨n, hn, hn'⟩ := h.arrayLength hV harray
    have hlength : (⟨.data (.nat (i + 1)) true, false, false⟩ : Property).Like V
        ⟨.data (.nat (i + 1)) true, false, false⟩ :=
      ⟨rfl, rfl, _, _, rfl, rfl, hV.refl _ rfl⟩
    have hdefine : o.define k d = some (if n ≤ i then (o.put k p).put lengthKey
        ⟨.data (.nat (i + 1)) true, false, false⟩ else o.put k p) := by
      rw [Object.define_of_index harray hi hn, hd, Option.map_some]
    have hdefine' : o'.define k d' = some (if n ≤ i then (o'.put k p').put lengthKey
        ⟨.data (.nat (i + 1)) true, false, false⟩ else o'.put k p') := by
      rw [Object.define_of_index (h.isArray_eq.trans harray) hi hn', hd', Option.map_some]
    refine ⟨_, _, hdefine, hdefine', ?_⟩
    split
    · exact hput.put lengthKey hlength fun _ _ => ⟨_, rfl⟩
    · exact hput

/-- Setting the length of an array cuts it, or makes room in it. -/
theorem Object.Like.setLength (h : o.Like V o') (ho : o.isArray) (n : Nat) :
    ∃ q q' whole, o.setLength n {} = some (q, whole) ∧ o'.setLength n {} = some (q', whole) ∧
      q.Like V q' := by
  have hwritten {o o' : Object} (h : o.Like V o') (ho : o.isArray) (x : Value)
      (hx : ∃ y, x = .num y) : ∃ q q', o.defineNamed lengthKey { value := some x } = some q ∧
        o'.defineNamed lengthKey { value := some x } = some q' ∧ q.Like V q' := by
    obtain ⟨y, rfl⟩ := hx
    obtain ⟨z, e, c, hz⟩ := h.measured ho
    rcases h.own lengthKey with ⟨hnone, -⟩ | ⟨p, p', hp, hp', hlike⟩
    · rw [Object.own_of_isData h.data, hz] at hnone
      cases hnone
    · obtain ⟨u, u', hu, hu', -⟩ := hlike.content
      refine ⟨_, _, defineNamed_of_some hp ⟨u, hu⟩ _, defineNamed_of_some hp' ⟨u', hu'⟩ _, ?_⟩
      exact h.put lengthKey (hlike.replace (hV.refl _ rfl)) fun _ _ => ⟨y, rfl⟩
  obtain ⟨m, hm, hm'⟩ := h.arrayLength hV ho
  simp only [Object.setLength, hm, hm']
  by_cases hle : m ≤ n
  · obtain ⟨q, q', hq, hq', hlike⟩ := hwritten h ho (.nat n) ⟨_, rfl⟩
    exact ⟨q, q', true, by simp [hle, hq], by simp [hle, hq'], hlike⟩
  · obtain ⟨hreached, hcut⟩ := h.cutTo n
    obtain ⟨q, q', hq, hq', hlike⟩ := hwritten hcut ho (.nat (o.cutTo n).2) ⟨_, rfl⟩
    refine ⟨q, q', (o.cutTo n).2 == n, ?_, ?_, hlike⟩
    · simp [hle, hq]
    · simp [hle, ← hreached, hq']

end Exact
end LoadHook.Script
