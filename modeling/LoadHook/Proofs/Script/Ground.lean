import LoadHook.Proofs.Module.Object

/-!
# The heap that a host starts with

Data stand below two of its objects only: the one above all plain objects, and the one above all
arrays. What is found there is writable data under a name, but for the accessor by which an object
is put below another one. So looking something up above data comes to the same in all heaps that
were made from this one.
-/
namespace LoadHook.Script

/-- Whether an object is plain or an array. -/
def Object.isData (o : Object) : Bool :=
  match o.kind with
  | .plain | .array => true
  | _ => false

/-- An own property of plain objects and arrays is one of its list. -/
theorem Object.own_of_isData {o : Object} (ho : o.isData) (k : Key) :
    o.own k = findKey k o.props := by
  unfold Object.isData at ho
  unfold Object.own
  split <;> simp_all

/-- The heap that every host starts with. -/
@[irreducible] def ground : Heap := Heap.empty.addRealm.2.addConsole Host.homeRealm

/-- Every host starts with this heap. -/
theorem heap_start (w : World) : (Host.start w).workspace.heap = ground := by
  obtain ⟨hrealm, -⟩ := Heap.empty.finished_addRealm
  have hstart : (Host.start w).workspace.heap =
      Heap.empty.addRealm.2.addConsole Heap.empty.addRealm.1 := rfl
  rw [hstart, hrealm]
  unfold ground
  rfl

/-- In this heap the names of a module mean nothing special. -/
theorem plainFor_ground (w : World) : ground.PlainFor Host.homeRealm :=
  heap_start w ▸ plainFor_start w

/-- The object above all plain objects. -/
def objectTop : Ref := (ground.realm Host.homeRealm).objectProto

/-- The object above all arrays. -/
def arrayTop : Ref := (ground.realm Host.homeRealm).arrayProto

/-- The function that puts an object below another one. -/
def protoSetter : Native := .method .objectPrototype "set __proto__"

/-- Whether a key consists of digits. -/
def isDigits (k : Key) : Bool := k.all fun u => 48 ≤ u && u ≤ 57

/-- The key under which an object is asked for what it shows as data. -/
def toJsonKey : Key := key "toJSON"

/-- Whether a property stands under a name that is no index, and is writable data or the accessor by
which an object is put below another one. -/
def isTame (h : Heap) (e : Key × Property) : Bool :=
  !isDigits e.1 && e.1 != toJsonKey &&
    match e.2.content with
    | .data _ w => w
    | .accessor _ none => false
    | .accessor _ (some s) => decide (s < h.objects.size) &&
        match (h.object s).kind with
        | .native n _ => decide (n = protoSetter)
        | _ => false

theorem tops_tame : (objectTop < ground.objects.size ∧ arrayTop < ground.objects.size ∧
    2 ≤ ground.objects.size) ∧
    ((ground.object objectTop).isData ∧ (ground.object arrayTop).isData) ∧
    ((ground.object objectTop).proto = none ∧
      (ground.object arrayTop).proto = some objectTop) ∧
    (((ground.object objectTop).props ++ (ground.object arrayTop).props).all (isTame ground)) := by
  decide +kernel

theorem objectTop_lt : objectTop < ground.objects.size := tops_tame.1.1
theorem arrayTop_lt : arrayTop < ground.objects.size := tops_tame.1.2.1
theorem two_le_size_ground : 2 ≤ ground.objects.size := tops_tame.1.2.2

/-- An object above all plain objects, or all arrays. -/
def IsTop (r : Ref) : Prop := r = objectTop ∨ r = arrayTop

theorem IsTop.lt_size {r : Ref} (hr : IsTop r) : r < ground.objects.size := by
  rcases hr with rfl | rfl
  · exact objectTop_lt
  · exact arrayTop_lt

/-- What is found under a key in an object at the top, or above it. -/
def foundAbove (r : Ref) (k : Key) : Option Property := ground.findFrom 2 r k

variable {r s : Ref} {k : Key} {p : Property} {h : Heap}

/-- An object of the heap that a host starts with. -/
theorem Heap.Extends.object_top (hg : ground.Extends h) (hr : IsTop r) :
    h.object r = ground.object r := hg.object r hr.lt_size

/-- Whatever has been added to the heap, the same is found at the top. -/
theorem findFrom_top (hg : ground.Extends h) (hr : IsTop r) (n : Nat) (k : Key) :
    h.findFrom (n + 2) r k = foundAbove r k := by
  obtain ⟨-, -, ⟨htop, harray⟩, -⟩ := tops_tame
  have hobject := hg.object_top (.inl rfl)
  rcases hr with rfl | rfl
  · simp only [foundAbove, Heap.findFrom, hobject, htop]
  · simp only [foundAbove, Heap.findFrom, hobject, hg.object_top (.inr rfl), harray, htop]

/-- What is found at the top is a property of one of the two objects there. -/
theorem mem_of_foundAbove (hr : IsTop r) (hk : foundAbove r k = some p) :
    (k, p) ∈ (ground.object objectTop).props ++ (ground.object arrayTop).props := by
  obtain ⟨-, ⟨hobject, harray⟩, ⟨htop, hproto⟩, -⟩ := tops_tame
  rw [List.mem_append]
  rcases hr with rfl | rfl
  · simp only [foundAbove, Heap.findFrom, Object.own_of_isData hobject, htop] at hk
    split at hk
    · next q hq =>
      cases hk
      exact .inl (mem_of_findKey hq)
    · cases hk
  · simp only [foundAbove, Heap.findFrom, Object.own_of_isData hobject,
      Object.own_of_isData harray, hproto, htop] at hk
    split at hk
    · next q hq =>
      cases hk
      exact .inr (mem_of_findKey hq)
    · split at hk
      · next q hq =>
        cases hk
        exact .inl (mem_of_findKey hq)
      · cases hk

theorem isTame_of_foundAbove (hr : IsTop r) (hk : foundAbove r k = some p) :
    isTame ground (k, p) := by
  obtain ⟨-, -, -, htame⟩ := tops_tame
  exact List.all_eq_true.mp htame _ (mem_of_foundAbove hr hk)

/-- An index is not found at the top. -/
theorem foundAbove_of_isDigits (hr : IsTop r) (hk : isDigits k) : foundAbove r k = none := by
  cases hp : foundAbove r k with
  | none => rfl
  | some p =>
    have htame := isTame_of_foundAbove hr hp
    simp [isTame, hk] at htame

theorem foundAbove_toJsonKey (hr : IsTop r) : foundAbove r toJsonKey = none := by
  cases hp : foundAbove r toJsonKey with
  | none => rfl
  | some p =>
    have htame := isTame_of_foundAbove hr hp
    simp [isTame] at htame

/-- What is found at the top is writable data, or an accessor with the setter by which an object is
put below another one. -/
theorem content_of_foundAbove (hr : IsTop r) (hk : foundAbove r k = some p) :
    (∃ v, p.content = .data v true) ∨ ∃ g s realm, p.content = .accessor g (some s) ∧
      s < ground.objects.size ∧ (ground.object s).kind = .native protoSetter realm := by
  have htame := isTame_of_foundAbove hr hk
  obtain ⟨content, e, c⟩ := p
  cases content with
  | data v w =>
    simp only [isTame, Bool.and_eq_true] at htame
    exact .inl ⟨v, by rw [htame.2]⟩
  | accessor g s =>
    cases s with
    | none => simp [isTame] at htame
    | some s =>
      simp only [isTame, Bool.and_eq_true, decide_eq_true_eq] at htame
      obtain ⟨-, hs, hkind⟩ := htame
      split at hkind
      · next n realm hn =>
        rw [of_decide_eq_true hkind] at hn
        exact .inr ⟨g, s, realm, rfl, hs, hn⟩
      · cases hkind

/-- Nothing but the tops stands above the tops. -/
theorem isAbove_top (hg : ground.Extends h) (hr : IsTop r) (hs : ground.objects.size ≤ s)
    (n : Nat) : h.isAbove n s r = false := by
  obtain ⟨-, -, ⟨htop, hproto⟩, -⟩ := tops_tame
  have hnot (n : Nat) : h.isAbove n s objectTop = false := by
    cases n with
    | zero => rfl
    | succ n => simp only [Heap.isAbove, hg.object_top (.inl rfl), htop]
  have hne : (objectTop == s) = false :=
    beq_eq_false_iff_ne.mpr (Nat.ne_of_lt (Nat.lt_of_lt_of_le objectTop_lt hs))
  rcases hr with rfl | rfl
  · exact hnot n
  · cases n with
    | zero => rfl
    | succ n => simp only [Heap.isAbove, hg.object_top (.inr rfl), hproto, hnot, hne, Bool.or_self]

end LoadHook.Script
