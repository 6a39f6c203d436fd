import LoadHook.Proofs.Module.Object
import LoadHook.Proofs.Script.Parsing

/-!
# Documents in a heap

Data that have been put into a heap hold the document that they stand for: `Bears` says so of a
value. The objects of the document are new; each array and each object stands right below the top
of its realm, and holds only objects that were made before it. So nothing stands in itself, and the
document stays what it is as long as these objects do.
-/
namespace LoadHook.Script

open Text (Utf16)
open Document
open Json (Last)

variable {realm : RealmRef} {h h' h₁ : Heap} {low high low' high' : Ref} {v : Value} {j : Json}
  {d : Document}

/-- The member of an object as its property. -/
def memberProperty (m : (String × Json) × Value) : Key × Property :=
  (Utf16.ofString m.1.1, .plain m.2)

/-- A new array of a realm. -/
def Heap.arrayFor (h : Heap) (realm : RealmRef) (vs : List Value) : Object :=
  ⟨.array, some (h.realm realm).arrayProto, true,
    (lengthKey, ⟨.data (.nat vs.length) true, false, false⟩) ::
    (vs.map some).zipIdx.filterMap fun (v, i) => v.map fun v => (natKey i, Property.plain v)⟩

/-- A new plain object of a realm. -/
def Heap.objectFor (h : Heap) (realm : RealmRef) (props : List (Key × Property)) : Object :=
  ⟨.plain, some (h.realm realm).objectProto, true, props⟩

/-- A value holds a document, in objects from one place of the heap up to another. -/
inductive Bears (h : Heap) (realm : RealmRef) (low : Ref) : Ref → Value → Json → Prop where
  | null {high : Ref} : Bears h realm low high .null .null
  | bool {high : Ref} (b : Bool) : Bears h realm low high (.bool b) (.bool b)
  | num {high : Ref} (n : Int) : Bears h realm low high (.num (Numeric.ofInt n)) (.int n)
  | str {high : Ref} (s : String) : Bears h realm low high (.str (Utf16.ofString s)) (.str s)
  | arr {high r : Ref} (items : List (Json × Value)) (hlow : low ≤ r) (hhigh : r < high)
      (hobject : h.object r = h.arrayFor realm (items.map Prod.snd))
      (hitems : ∀ i ∈ items, Bears h realm low r i.2 i.1) :
      Bears h realm low high (.obj r) (.arr (items.map Prod.fst))
  | obj {high r : Ref} (members : List ((String × Json) × Value)) (hlow : low ≤ r)
      (hhigh : r < high) (hnames : (members.map fun m => m.1.1).Nodup)
      (hobject : h.object r = h.objectFor realm (members.map memberProperty))
      (hmembers : ∀ m ∈ members, Bears h realm low r m.2 m.1.2) :
      Bears h realm low high (.obj r) (Json.ofMembers (members.map Prod.fst))

/-- What a value holds it holds wherever the objects are the same. -/
theorem Bears.mono (hb : Bears h realm low high v j) (hlow : low' ≤ low) (hhigh : high ≤ high')
    (hrealm : h'.realm realm = h.realm realm)
    (hobject : ∀ r, low ≤ r → r < high → h'.object r = h.object r) :
    Bears h' realm low' high' v j := by
  have harray (vs : List Value) : h'.arrayFor realm vs = h.arrayFor realm vs := by
    rw [Heap.arrayFor, hrealm, Heap.arrayFor]
  have hplain (props : List (Key × Property)) :
      h'.objectFor realm props = h.objectFor realm props := by
    rw [Heap.objectFor, hrealm, Heap.objectFor]
  induction hb generalizing high' with
  | null => exact .null
  | bool b => exact .bool b
  | num n => exact .num n
  | str s => exact .str s
  | @arr high r items hr hr' ho _ ih =>
    refine .arr items (Nat.le_trans hlow hr) (Nat.lt_of_lt_of_le hr' hhigh) ?_ fun i hi =>
      ih i hi (Nat.le_refl r) fun s hs hs' => hobject s hs (Nat.lt_trans hs' hr')
    rw [hobject r hr hr', ho, harray]
  | @obj high r members hr hr' hnames ho _ ih =>
    refine .obj members (Nat.le_trans hlow hr) (Nat.lt_of_lt_of_le hr' hhigh) hnames ?_ fun m hm =>
      ih m hm (Nat.le_refl r) fun s hs hs' => hobject s hs (Nat.lt_trans hs' hr')
    rw [hobject r hr hr', ho, hplain]

/-- What a value holds it holds still where objects have been added. -/
theorem Bears.extends (hb : Bears h realm low high v j) (hlow : low' ≤ low) (hhigh : high ≤ high')
    (hsize : high ≤ h.objects.size) (e : h.Extends h') : Bears h' realm low' high' v j :=
  hb.mono hlow hhigh (e.realm realm) fun r _ hr => e.object r (Nat.lt_of_lt_of_le hr hsize)

/-! ## New objects -/

mutual

/-- Data only add to the heap. -/
theorem toValue_extends (realm : RealmRef) :
    (d : Document) → (h : Heap) → h.Extends (toValue realm d h).2
  | .null, h => .refl h
  | .bool _, h => .refl h
  | .num _, h => .refl h
  | .str _, h => .refl h
  | .arr items, h => (itemValues_extends realm items h).trans (.addObject _ _)
  | .obj members, h => (memberValues_extends realm members h).trans (.addObject _ _)

theorem itemValues_extends (realm : RealmRef) :
    (items : List Document) → (h : Heap) → h.Extends (itemValues realm items h).2
  | [], h => .refl h
  | d :: rest, h => (toValue_extends realm d h).trans (itemValues_extends realm rest _)

theorem memberValues_extends (realm : RealmRef) :
    (members : List (Key × Document)) → (h : Heap) → h.Extends (memberValues realm members h).2
  | [], h => .refl h
  | (_, d) :: rest, h => (toValue_extends realm d h).trans (memberValues_extends realm rest _)

end

/-- Data put into any heap hold a document. -/
def Plants (realm : RealmRef) (d : Document) (j : Json) : Prop :=
  ∀ h : Heap, Bears (toValue realm d h).2 realm h.objects.size (toValue realm d h).2.objects.size
    (toValue realm d h).1 j

theorem itemValues_bear {items : List (Json × Document)}
    (hplants : ∀ i ∈ items, Plants realm i.2 i.1) (h : Heap) :
    ∃ pairs : List (Json × Value), pairs.map Prod.fst = items.map Prod.fst ∧
      pairs.map Prod.snd = (itemValues realm (items.map Prod.snd) h).1 ∧
      ∀ p ∈ pairs, Bears (itemValues realm (items.map Prod.snd) h).2 realm h.objects.size
        (itemValues realm (items.map Prod.snd) h).2.objects.size p.2 p.1 := by
  induction items generalizing h with
  | nil => exact ⟨[], rfl, rfl, by simp⟩
  | cons i items ih =>
    obtain ⟨hfirst, hrest⟩ := List.forall_mem_cons.mp hplants
    have hold := toValue_extends realm i.2 h
    have hnew := itemValues_extends realm (items.map Prod.snd) (toValue realm i.2 h).2
    obtain ⟨pairs, hfst, hsnd, hpairs⟩ := ih hrest (toValue realm i.2 h).2
    refine ⟨(i.1, (toValue realm i.2 h).1) :: pairs, by simp [hfst], by simp [itemValues, hsnd],
      List.forall_mem_cons.mpr ⟨?_, fun p hp => ?_⟩⟩
    · exact (hfirst h).extends (Nat.le_refl _) hnew.size (Nat.le_refl _) hnew
    · exact (hpairs p hp).mono hold.size (Nat.le_refl _) rfl fun _ _ _ => rfl

theorem memberValues_bear {members : List ((String × Json) × Document)}
    (hplants : ∀ m, Last (·.1.1) members m → Plants realm m.2 m.1.2) (h : Heap) :
    ∃ triples : List ((String × Json) × Value),
      triples.map Prod.fst = members.map Prod.fst ∧
      triples.map (fun t => (Utf16.ofString t.1.1, t.2)) =
        (memberValues realm (members.map fun m => (Utf16.ofString m.1.1, m.2)) h).1 ∧
      ∀ t, Last (·.1.1) triples t →
        Bears (memberValues realm (members.map fun m => (Utf16.ofString m.1.1, m.2)) h).2 realm
          h.objects.size (memberValues realm (members.map fun m =>
            (Utf16.ofString m.1.1, m.2)) h).2.objects.size t.2 t.1.2 := by
  induction members generalizing h with
  | nil => exact ⟨[], rfl, rfl, fun t ht => absurd ht.mem (by simp)⟩
  | cons m members ih =>
    have hold := toValue_extends realm m.2 h
    have hnew := memberValues_extends realm (members.map fun m => (Utf16.ofString m.1.1, m.2))
      (toValue realm m.2 h).2
    obtain ⟨triples, hfst, hvalues, htriples⟩ := ih (fun n hn => hplants n (hn.cons m))
      (toValue realm m.2 h).2
    refine ⟨(m.1, (toValue realm m.2 h).1) :: triples, by simp [hfst],
      by simp [memberValues, hvalues], fun t ht => ?_⟩
    rcases Json.last_cons_iff.mp ht with ht | ⟨rfl, hno⟩
    · exact (htriples t ht).mono hold.size (Nat.le_refl _) rfl fun _ _ _ => rfl
    · have hlast : Last (·.1.1) (m :: members) m := by
        refine ⟨[], members, rfl, fun n hn he => ?_⟩
        have hmem : n.1 ∈ triples.map Prod.fst := hfst ▸ List.mem_map_of_mem hn
        obtain ⟨t, ht, htn⟩ := List.mem_map.mp hmem
        exact hno t ht (htn ▸ he)
      exact (hplants m hlast h).extends (Nat.le_refl _) hnew.size (Nat.le_refl _) hnew

/-! ## The members that count -/

theorem ofString_injective : Function.Injective Utf16.ofString := by
  intro s t h
  have hs := Utf16.toString?_ofString s
  rw [h, Utf16.toString?_ofString t] at hs
  exact (Except.ok.inj hs).symm

/-- Properties are put as the members of their names. -/
theorem map_putLast_property (m : (String × Json) × Value) (l : List ((String × Json) × Value)) :
    (Json.putLast (·.1.1) m l).map memberProperty =
      putKey (Utf16.ofString m.1.1) (.plain m.2) (l.map memberProperty) := by
  induction l with
  | nil => rfl
  | cons n l ih =>
    by_cases hn : n.1.1 = m.1.1
    · simp [Json.putLast, putKey, memberProperty, hn]
    · have hkey : Utf16.ofString n.1.1 ≠ Utf16.ofString m.1.1 := fun h =>
        hn (ofString_injective h)
      simp only [Json.putLast, hn, if_false, List.map_cons, ih]
      simp [memberProperty, putKey, hkey]

theorem foldl_putKey (l : List ((String × Json) × Value)) :
    (l.map fun t => (Utf16.ofString t.1.1, t.2)).foldl
      (fun all p => putKey p.1 (.plain p.2) all) [] =
    (Json.lasts (·.1.1) l).map memberProperty := by
  induction l using List.reverseRecOn with
  | nil => rfl
  | append_singleton l m ih =>
    have hlasts :
        Json.lasts (·.1.1) (l ++ [m]) = Json.putLast (·.1.1) m (Json.lasts (·.1.1) l) := by
      simp [Json.lasts]
    rw [hlasts, map_putLast_property, ← ih]
    simp

/-- The last members of their names make the same object. -/
theorem ofMembers_lasts {β : Type} (l : List ((String × Json) × β)) :
    Json.ofMembers ((Json.lasts (·.1.1) l).map Prod.fst) = Json.ofMembers (l.map Prod.fst) := by
  obtain ⟨hnodup, hmem⟩ := Json.map_lasts (fun m : (String × Json) × β => m.1.1) l
  refine congrArg Json.obj (Json.sortMembers_congr fun m => ?_)
  have hnames : (((Json.lasts (·.1.1) l).map Prod.fst).map Prod.fst).Nodup := by
    rwa [List.map_map]
  rw [Json.last_iff_mem hnames]
  constructor
  · intro hm
    obtain ⟨t, ht, rfl⟩ := List.mem_map.mp hm
    exact ((hmem t).mp ht).map Prod.fst
  · intro hm
    obtain ⟨t, ht, rfl⟩ := Json.exists_last_of_map hm
    exact List.mem_map_of_mem ((hmem t).mpr ht)

theorem addArray_for (vs : List Value) (h : Heap) :
    h.addArray (h.realm realm).arrayProto (vs.map some) = h.addObject (h.arrayFor realm vs) := by
  rw [Heap.addArray, Heap.arrayFor, List.length_map]

/-- Data that stand for a document hold it in every heap. -/
theorem plants_of_stands (hd : Stands d j) : Plants realm d j := by
  induction hd with
  | null => exact fun h => .null
  | bool b => exact fun h => .bool b
  | num n => exact fun h => .num n
  | str s => exact fun h => .str s
  | arr items _ ih =>
    intro h
    have hold := itemValues_extends realm (items.map Prod.snd) h
    obtain ⟨pairs, hfst, hsnd, hpairs⟩ := itemValues_bear ih h
    rw [toValue]
    generalize itemValues realm (items.map Prod.snd) h = made at hold hsnd hpairs
    obtain ⟨vs, h₁⟩ := made
    simp only at hsnd hpairs hold
    subst hsnd
    rw [← hfst]
    simp only [addArray_for]
    refine .arr pairs hold.size (by simp) Heap.object_addObject_self fun p hp => ?_
    exact (hpairs p hp).extends (Nat.le_refl _) (Nat.le_refl _) (Nat.le_refl _) (.addObject _ _)
  | obj members _ ih =>
    intro h
    have hold := memberValues_extends realm (members.map fun m => (Utf16.ofString m.1.1, m.2)) h
    obtain ⟨triples, hfst, hvalues, htriples⟩ := memberValues_bear ih h
    rw [toValue]
    generalize memberValues realm (members.map fun m => (Utf16.ofString m.1.1, m.2)) h = made
      at hold hvalues htriples
    obtain ⟨ps, h₁⟩ := made
    simp only at hvalues htriples hold
    subst hvalues
    rw [← hfst, ← ofMembers_lasts]
    obtain ⟨hnodup, hmem⟩ :=
      Json.map_lasts (fun t : (String × Json) × Value => t.1.1) triples
    simp only [foldl_putKey]
    refine .obj (Json.lasts (·.1.1) triples) hold.size (by simp) hnodup
      Heap.object_addObject_self fun t ht => ?_
    exact (htriples t ((hmem t).mp ht)).extends (Nat.le_refl _) (Nat.le_refl _) (Nat.le_refl _)
      (.addObject _ _)

end LoadHook.Script
