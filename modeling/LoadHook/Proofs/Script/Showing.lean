import LoadHook.Proofs.Module.Failure
import LoadHook.Proofs.Script.Lookup
import LoadHook.Proofs.Script.Storing

/-!
# What data show

Writing data as JSON runs no script: the objects above data have no `toJSON`, and what data hold
under that name cannot be called. Values that are alike show the same, or are nested too deep both
of them; and as nothing that is alike to anything stands in itself, there are no circles.
-/
namespace LoadHook.Script

open Machine BuiltIn

variable {a b : View} {n m : Nat} {r r' : Ref} {k : Key} {v v' : Value} {h : Heap}
  {o o' : Object} {V : Value → Value → Prop}

/-! ## Computations that only read -/

/-- Nothing comes after a computation that has stopped. -/
theorem Eval.bind_of_stopped {α β : Type} {x : Eval α} {f : α → Eval β} {e : Abrupt} {g : Heap}
    (hx : x h = .done (.error e, g)) : (x >>= f) h = .done (.error e, g) := by
  change Eval.bind x f h = _
  simp only [Eval.bind, hx, Dialogue.bind_done]

/-- Two computations that change nothing come to the same value, or are nested too deep. -/
inductive Agree {α : Type} (h h' : Heap) (x x' : Eval α) : Prop
  | value (c : α) : x h = .done (.ok c, h) → x' h' = .done (.ok c, h') → Agree h h' x x'
  | overflow : x h = .done (.error .overflow, h) → x' h' = .done (.error .overflow, h') →
      Agree h h' x x'

namespace Agree

variable {α β γ : Type} {h h' : Heap} {x x' : Eval α} {f f' : α → Eval β}

theorem pure (c : α) : Agree h h' (Pure.pure c : Eval α) (Pure.pure c) := .value c rfl rfl

/-- Going on after values that have been read, which need not be the same. -/
theorem after {y y' : Eval γ} {g g' : γ → Eval β} {c c' : γ} (hy : y h = .done (.ok c, h))
    (hy' : y' h' = .done (.ok c', h')) (hg : Agree h h' (g c) (g' c')) :
    Agree h h' (y >>= g) (y' >>= g') := by
  have hbind : (y >>= g) h = g c h := Eval.bind_of_done hy
  have hbind' : (y' >>= g') h' = g' c' h' := Eval.bind_of_done hy'
  cases hg with
  | value d hd hd' => exact .value d (hbind.trans hd) (hbind'.trans hd')
  | overflow hd hd' => exact .overflow (hbind.trans hd) (hbind'.trans hd')

theorem bind (hx : Agree h h' x x') (hf : ∀ c, Agree h h' (f c) (f' c)) :
    Agree h h' (x >>= f) (x' >>= f') := by
  cases hx with
  | value c hc hc' => exact .after hc hc' (hf c)
  | overflow hx hx' => exact .overflow (Eval.bind_of_stopped hx) (Eval.bind_of_stopped hx')

theorem collect {l : List α} (hf : ∀ c ∈ l, Agree h h' (f c) (f' c)) :
    Agree h h' (Eval.collect f l) (Eval.collect f' l) := by
  induction l with
  | nil => exact .pure []
  | cons c rest ih =>
    refine .bind (hf c List.mem_cons_self) fun b => .bind (ih fun d hd => ?_) fun bs => .pure _
    exact hf d (List.mem_cons_of_mem c hd)

end Agree

/-! ## Objects that show data -/

/-- Data cannot be called. -/
theorem Object.callable_of_isData (ho : o.isData) : o.callable = false := by
  unfold Object.isData at ho
  unfold Object.callable
  cases hk : o.kind <;> simp_all

theorem Object.kind_of_isData (ho : o.isData) : o.kind = .plain ∨ o.kind = .array := by
  unfold Object.isData at ho
  cases hk : o.kind <;> simp_all

theorem Alike.not_callable (h : Alike a b n v v') : a.heap.callable v = false := by
  cases v with
  | obj r =>
    obtain ⟨_, _, _, _, _, _, hlike⟩ := h.of_obj
    exact Object.callable_of_isData hlike.data
  | _ => rfl

theorem keys_like {props props' : List (Key × Property)}
    (h : List.Forall₂ (EntryLike V) props props') : props.map Prod.fst = props'.map Prod.fst := by
  induction h with
  | nil => rfl
  | cons he _ ih => rw [List.map_cons, List.map_cons, he.1, ih]

/-- Objects that are alike have the same keys. -/
theorem Object.Like.ownKeys_eq (h : o.Like V o') : o'.ownKeys = o.ownKeys := by
  unfold Object.ownKeys
  rw [h.kind, keys_like h.props]

/-- The keys under which an object shows something. -/
def Object.shownKeys (o : Object) : List Key :=
  o.ownKeys.filter fun k => ((o.own k).map Property.enumerable).getD false

/-- Objects that are alike show something under the same keys. -/
theorem Object.Like.shownKeys_eq (h : o.Like V o') : o'.shownKeys = o.shownKeys := by
  unfold Object.shownKeys
  rw [h.ownKeys_eq]
  refine List.filter_congr fun k _ => ?_
  rcases h.own k with ⟨hnone, hnone'⟩ | ⟨p, p', hp, hp', hlike⟩
  · rw [hnone, hnone']
  · rw [hp, hp', Option.map_some, Option.map_some, hlike.enumerable]

/-- Under a key that an object shows it holds a property of its own. -/
theorem Object.own_of_mem_shownKeys (hk : k ∈ o.shownKeys) : ∃ p, o.own k = some p := by
  obtain ⟨-, hshown⟩ := List.mem_filter.mp hk
  cases hp : o.own k with
  | none => simp [hp] at hshown
  | some p => exact ⟨p, rfl⟩

theorem isDigits_natKey (n : Nat) : isDigits (natKey n) := by
  unfold isDigits natKey
  rw [List.all_map, List.all_eq_true]
  intro c hc
  have hdigit := Nat.isDigit_of_mem_toDigits (b := 10) (by decide) (by decide) hc
  simp only [Char.isDigit, Bool.and_eq_true, decide_eq_true_eq, UInt32.le_iff_toNat_le] at hdigit
  have hrange : 48 ≤ c.toNat ∧ c.toNat ≤ 57 := hdigit
  have hunit : c.toNat.toUInt16.toNat = c.toNat :=
    Nat.mod_eq_of_lt (Nat.lt_of_le_of_lt hrange.2 (by decide))
  simp only [Function.comp_apply, Bool.and_eq_true, decide_eq_true_eq,
    UInt16.le_iff_toNat_le, hunit]
  exact hrange

/-! ## Reading what data hold -/

section Grounded

variable (m : Machine) (realm : RealmRef) (ha : ground.Extends a.heap) (hb : ground.Extends b.heap)

theorem get_obj : m.get realm (.obj r) k h = m.getRef realm r k h := rfl

include ha hb in
/-- What objects that are alike hold themselves is alike, and so is what is found above them under
names that mean nothing at the top. -/
theorem getRef_like (ho : Object.Like (Alike a b n) (a.heap.object r) (b.heap.object r')) (k : Key)
    (hk : (∃ p, (a.heap.object r).own k = some p) ∨ ∀ t, IsTop t → foundAbove t k = none) :
    ∃ u u', m.getRef realm r k a.heap = .done (.ok u, a.heap) ∧
      m.getRef realm r' k b.heap = .done (.ok u', b.heap) ∧ Alike a b n u u' := by
  have hread {p p' : Property} (hp : a.heap.find r k = some p) (hp' : b.heap.find r' k = some p')
      (hlike : p.Like (Alike a b n) p') : ∃ u u',
      m.getRef realm r k a.heap = .done (.ok u, a.heap) ∧
      m.getRef realm r' k b.heap = .done (.ok u', b.heap) ∧ Alike a b n u u' := by
    obtain ⟨content, e, c⟩ := p
    obtain ⟨content', e', c'⟩ := p'
    obtain ⟨u, u', rfl, rfl, hu⟩ := hlike.content
    exact ⟨u, u', getRef_of_finds m realm ⟨true, e, c, hp⟩,
      getRef_of_finds m realm ⟨true, e', c', hp'⟩, hu⟩
  rcases ho.own k with ⟨hnone, -⟩ | ⟨p, p', hp, hp', hlike⟩
  · have hfound := find_like ha hb k ho
    generalize hp : a.heap.find r k = p, hp' : b.heap.find r' k = p' at hfound
    cases hfound with
    | nothing =>
      exact ⟨.undefined, .undefined, getRef_of_find_eq_none m realm hp,
        getRef_of_find_eq_none m realm hp', .of_ref?_eq_none rfl n⟩
    | like hlike => exact hread hp hp' hlike
    | top ht htop =>
      rcases hk with ⟨p, hown⟩ | hk
      · cases hnone.symm.trans hown
      · cases (hk _ ht).symm.trans htop
  · exact hread (Heap.find_of_own hp) (Heap.find_of_own hp') hlike

/-- Arrays that are alike say that they are equally long. -/
theorem lengthOf_like {V : Value → Value → Prop} (hV : Exact V) {h h' : Heap}
    (ho : Object.Like V (h.object r) (h'.object r')) (harray : (h.object r).isArray) :
    ∃ l, m.lengthOf realm (.obj r) h = .done (.ok l, h) ∧
      m.lengthOf realm (.obj r') h' = .done (.ok l, h') := by
  obtain ⟨x, _, _, _, _, hx, hx'⟩ := ho.length_eq hV harray
  obtain ⟨i, hi⟩ : ∃ i : Int, ∀ h, m.toInteger realm (.num x) h = .done (.ok i, h) := by
    have hnumber (h : Heap) : m.toNumber realm (.num x) h = .done (.ok x, h) := rfl
    by_cases hnan : x.isNaN = true
    · exact ⟨0, fun h => by rw [toInteger, Eval.bind_of_done (hnumber h), hnan]; rfl⟩
    · by_cases hfin : Decimal.isFinite x = true
      · refine ⟨Numeric.truncate x, fun h => ?_⟩
        rw [toInteger, Eval.bind_of_done (hnumber h), if_neg hnan, if_pos hfin]
        rfl
      · refine ⟨if x < 0 then -Int.pow 2 60 else Int.pow 2 60, fun h => ?_⟩
        rw [toInteger, Eval.bind_of_done (hnumber h), if_neg hnan, if_neg hfin]
        rfl
  have hlength {r : Ref} {h : Heap} (hd : (h.object r).isData) {e c : Bool}
      (hx : findKey lengthKey (h.object r).props = some ⟨.data (.num x) true, e, c⟩) :
      m.lengthOf realm (.obj r) h = .done (.ok i.toNat, h) := by
    have hown : h.own r lengthKey = some ⟨.data (.num x) true, e, c⟩ :=
      (Object.own_of_isData hd lengthKey).trans hx
    have hget : m.get realm (.obj r) lengthKey h = .done (.ok (.num x), h) :=
      (get_obj m realm).trans (getRef_of_holds m ⟨true, e, c, hown⟩)
    rw [lengthOf, Eval.bind_of_done hget, Eval.bind_of_done (hi h)]
    rfl
  exact ⟨_, hlength ho.data hx, hlength ho.data_right hx'⟩

include ha in
/-- Data are shown as they are. -/
theorem shown_like (holder : Value) (k : Key) (hv : Alike a a n v v) :
    shown m realm none holder k v a.heap = .done (.ok v, a.heap) := by
  cases v with
  | obj r =>
    obtain ⟨_, _, -, hr, -, -, hlike⟩ := hv.of_obj
    cases hr
    obtain ⟨f, f', hf, -, hfs⟩ := getRef_like m realm ha ha hlike toJsonKey
      (.inr fun t ht => foundAbove_toJsonKey ht)
    have hunwrap : unwrap m realm (.obj r) a.heap = .done (.ok (.obj r), a.heap) := by
      simp only [unwrap, Eval.read_bind]
      rcases Object.kind_of_isData hlike.data with hkind | hkind <;> simp only [hkind] <;> rfl
    have hget : m.getRef realm r (key "toJSON") a.heap = .done (.ok f, a.heap) := hf
    unfold shown
    refine (Eval.bind_of_done hget).trans ?_
    rw [Eval.read_bind, hfs.not_callable]
    exact hunwrap
  | _ => rfl

/-- Objects that show more levels than so many, or no data at all. -/
def Beyond (a : View) (n : Nat) (above : List Ref) : Prop :=
  ∀ x ∈ above, ¬ Alike a a n (.obj x) (.obj x)

theorem Beyond.cons {above : List Ref} (h : Beyond a n above) (hin : i ≤ n)
    (hr : ¬ Alike a a i (.obj r) (.obj r)) : Beyond a i (r :: above) := by
  intro x hx
  rcases List.mem_cons.mp hx with rfl | hx
  · exact hr
  · exact fun hlike => h x hx (hlike.mono hin)

include ha hb in
/-- Values that are alike show the same. -/
theorem snapshot_like (fuel : Nat) {above above' : List Ref} (holder holder' : Value) (k : Key)
    (hv : Alike a b n v v') (hx : Beyond a n above) (hx' : Beyond b n above') :
    Agree a.heap b.heap (snapshot m realm ⟨none, none⟩ fuel above holder k v)
      (snapshot m realm ⟨none, none⟩ fuel above' holder' k v') := by
  induction fuel generalizing n above above' holder holder' k v v' with
  | zero => exact .overflow rfl rfl
  | succ fuel ih =>
    unfold snapshot
    refine .after (shown_like m realm ha holder k hv.left)
      (shown_like m realm hb holder' k hv.right) ?_
    cases v with
    | obj r =>
      obtain ⟨i, hi, hlevel⟩ := exists_level hv.left
      have hdeep := hv.of_left hlevel.1
      obtain ⟨_, r', hi', rfl, -, -, hlike⟩ := hdeep.of_obj
      cases hi'
      -- what the objects hold lies one level below them, and so they are not among it
      have hy : Beyond a i (r :: above) := hx.cons hi.le hlevel.2
      have hy' : Beyond b i (r' :: above') :=
        hx'.cons hi.le fun h => hlevel.2 (hdeep.of_right h).left
      have hnew : above.contains r = false := by simpa using fun hr => hx r hr hv.left
      have hnew' : above'.contains r' = false := by simpa using fun hr => hx' r' hr hv.right
      refine .after (y := Eval.read (·.object r)) rfl rfl ?_
      simp only [Object.callable_of_isData hlike.data, Object.callable_of_isData hlike.data_right,
        hnew, hnew', hlike.isArray_eq, Bool.false_eq_true, if_false]
      by_cases harray : (a.heap.object r).isArray = true
      · simp only [harray, if_true]
        obtain ⟨l, hl, hl'⟩ := lengthOf_like m realm (Alike.exact a b i) hlike harray
        refine .after hl hl' (.bind (.collect fun j _ => ?_) fun items => .pure _)
        obtain ⟨u, u', hu, hu', hitem⟩ := getRef_like m realm ha hb hlike (natKey j)
          (.inr fun t ht => foundAbove_of_isDigits ht (isDigits_natKey j))
        exact .after hu hu' (ih _ _ _ hitem hy hy')
      · simp only [harray, Bool.false_eq_true, if_false]
        have hkeys := hlike.shownKeys_eq
        unfold Object.shownKeys at hkeys
        rw [hkeys]
        refine .bind (.collect fun k hk => ?_) fun members => .pure _
        obtain ⟨u, u', hu, hu', hmember⟩ := getRef_like m realm ha hb hlike k
          (.inl (Object.own_of_mem_shownKeys hk))
        exact .after hu hu' (.bind (ih _ _ _ hmember hy hy') fun _ => .pure _)
    | _ =>
      cases hv.eq_of_ref?_eq_none rfl
      exact .pure _

include ha hb in
/-- Values that are alike show the same as a whole, or are nested too deep both of them. -/
theorem documentOf_like (hv : Alike a b n v v') :
    Agree a.heap b.heap (documentOf m realm v) (documentOf m realm v') :=
  snapshot_like m realm ha hb _ _ _ _ hv (by simp [Beyond]) (by simp [Beyond])

end Grounded

end LoadHook.Script
