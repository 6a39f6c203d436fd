import LoadHook.Proofs.Script.Bearing
import LoadHook.Proofs.Script.Printing
import LoadHook.Proofs.Script.Showing

/-!
# What a document shows

A value that holds a document shows it: what is written of it is a text of the document, members in
the order in which an object lists its keys.
-/
namespace LoadHook.Script

open Text (Utf16)
open Text.Utf16 (ofChar ofChars)
open Document
open BuiltIn Machine
open Json (Entry Writes Last)

variable {realm : RealmRef} {h h' : Heap} {low high r : Ref} {v : Value} {j : Json} {k : Key}

/-! ## Keys -/

theorem natKey_injective : Function.Injective natKey := by
  intro m n h
  have hdigits (n : Nat) : ∀ c ∈ Nat.toDigits 10 n, c.toNat < 0x80 := fun c hc =>
    lt_of_digits (fun d hd => Nat.isDigit_of_mem_toDigits (by decide) (by decide) hd) c hc
  have hkey (n : Nat) : (natKey n).map (fun u => Char.ofNat u.toNat) = Nat.toDigits 10 n := by
    rw [natKey, List.map_map]
    refine (List.map_congr_left fun c hc => ?_).trans (List.map_id _)
    have hlt := hdigits n c hc
    rw [Function.comp_apply, Text.Utf16.toNat_unit (by omega), Char.ofNat_toNat, id]
  have hchars : Nat.toDigits 10 m = Nat.toDigits 10 n := by rw [← hkey, h, hkey]
  rw [← Nat.ofDigitChars_ten_toDigits (n := m), hchars, Nat.ofDigitChars_ten_toDigits]

theorem natKey_ne {n : Nat} (hk : isDigits k = false) : natKey n ≠ k := by
  rintro rfl
  rw [isDigits_natKey] at hk
  cases hk

/-- An object that is no text lists the keys of its properties, in an order of its own. -/
theorem ownKeys_perm {o : Object} (ho : o.kind = .plain) :
    o.ownKeys.Perm (o.props.map Prod.fst) := by
  have hindices (keys : List Key) :
      (keys.filterMap fun k => (index? k).map fun i => (i, k)).map Prod.snd =
        keys.filter fun k => (index? k).isSome := by
    induction keys with
    | nil => rfl
    | cons k keys ih => cases hk : index? k <;> simp [hk, ih]
  have hnamed (keys : List Key) : (keys.filter fun k => (index? k).isNone) =
      keys.filter fun k => !(index? k).isSome :=
    List.filter_congr fun k _ => by cases index? k <;> rfl
  simp only [Object.ownKeys, ho, List.nil_append, hnamed]
  have hsorted := (List.mergeSort_perm ((o.props.map Prod.fst).filterMap fun k =>
    (index? k).map fun i => (i, k)) fun a b => decide (a.1 ≤ b.1)).map Prod.snd
  rw [hindices] at hsorted
  exact (hsorted.append_right _).trans (List.filter_append_perm _ _)

theorem findKey_elements {vs : List Value} (start : Nat) {i : Nat} (hi : i < vs.length) :
    findKey (natKey (start + i)) (((vs.map some).zipIdx start).filterMap fun (v, i) =>
      v.map fun v => (natKey i, Property.plain v)) = some (.plain vs[i]) := by
  induction vs generalizing start i with
  | nil => cases hi
  | cons v vs ih =>
    cases i with
    | zero => simp [findKey]
    | succ i =>
      have hne : natKey start ≠ natKey (start + (i + 1)) := fun h => by
        have := natKey_injective h
        omega
      have hnext := ih (start + 1) (i := i) (by simpa using hi)
      rw [Nat.add_assoc, Nat.add_comm 1 i] at hnext
      simpa [findKey, hne] using hnext

/-- What an array holds under an index. -/
theorem own_arrayFor {vs : List Value} {i : Nat} (hi : i < vs.length) :
    (h.arrayFor realm vs).own (natKey i) = some (.plain vs[i]) := by
  have hlength : natKey i ≠ lengthKey := natKey_ne (by decide)
  have helement := findKey_elements 0 hi
  rw [Nat.zero_add] at helement
  simpa [Heap.arrayFor, Object.own, findKey, hlength.symm] using helement

theorem own_arrayFor_length (vs : List Value) :
    (h.arrayFor realm vs).own lengthKey = some ⟨.data (.nat vs.length) true, false, false⟩ := by
  simp [Heap.arrayFor, Object.own, findKey]

theorem own_arrayFor_toJson (vs : List Value) : (h.arrayFor realm vs).own toJsonKey = none := by
  have hkeys (start : Nat) : findKey toJsonKey (((vs.map some).zipIdx start).filterMap fun (v, i) =>
      v.map fun v => (natKey i, Property.plain v)) = none := by
    induction vs generalizing start with
    | nil => rfl
    | cons v vs ih =>
      have hne : natKey start ≠ toJsonKey := natKey_ne (by decide)
      simpa [findKey, hne] using ih (start + 1)
  have hlength : lengthKey ≠ toJsonKey := by decide
  simpa [Heap.arrayFor, Object.own, findKey, hlength] using hkeys 0

/-- What an object holds under a name. -/
theorem own_objectFor {members : List ((String × Json) × Value)}
    (hnames : (members.map fun m => m.1.1).Nodup) {m : (String × Json) × Value} (hm : m ∈ members) :
    (h.objectFor realm (members.map memberProperty)).own (Utf16.ofString m.1.1) =
      some (.plain m.2) := by
  simp only [Heap.objectFor, Object.own]
  induction members with
  | nil => cases hm
  | cons n members ih =>
    rw [List.map_cons, List.nodup_cons] at hnames
    rcases List.mem_cons.mp hm with rfl | hm
    · simp [findKey, memberProperty]
    · have hne : Utf16.ofString n.1.1 ≠ Utf16.ofString m.1.1 := fun h =>
        hnames.1 (ofString_injective h ▸ List.mem_map_of_mem hm)
      simpa [findKey, memberProperty, hne] using ih hnames.2 hm

/-- It holds nothing else. -/
theorem own_objectFor_eq_none {members : List ((String × Json) × Value)}
    (hk : ∀ m ∈ members, Utf16.ofString m.1.1 ≠ k) :
    (h.objectFor realm (members.map memberProperty)).own k = none := by
  simp only [Heap.objectFor, Object.own]
  induction members with
  | nil => rfl
  | cons n members ih =>
    obtain ⟨hne, hrest⟩ := List.forall_mem_cons.mp hk
    simpa [findKey, memberProperty, hne] using ih hrest

/-! ## Where nothing is asked how it is shown -/

/-- For a realm no array and no plain object is asked how it is written: nothing is found above them
under the name of the method that would tell. -/
structure Heap.Mute (h : Heap) (realm : RealmRef) : Prop where
  object : h.Reads (h.realm realm).objectProto toJsonKey .undefined
  array : h.Reads (h.realm realm).arrayProto toJsonKey .undefined

theorem Heap.Reads.extends {u : Value} (hr : h.Reads r k u) (e : h.Extends h') :
    h'.Reads r k u := by
  obtain ⟨n, hn⟩ := hr
  exact ⟨n, hn.of_old e.size e.object⟩

theorem Heap.Mute.extends (hm : h.Mute realm) (e : h.Extends h') : h'.Mute realm where
  object := by
    rw [e.realm]
    exact hm.object.extends e
  array := by
    rw [e.realm]
    exact hm.array.extends e

/-- What is found above an object that has nothing of its own under a key. -/
theorem Heap.reads_above {up : Ref} {u : Value} (hr : r < h.objects.size) (hk : h.own r k = none)
    (hup : (h.object r).proto = some up) (hu : h.Reads up k u) : h.Reads r k u := by
  obtain ⟨n, hn⟩ := hu
  exact ⟨n + 1, .above hr hk hup hn⟩

/-- In the heap that a host starts with nothing is asked how it is written. -/
theorem mute_ground : ground.Mute Host.homeRealm := by
  obtain ⟨⟨hobject, harray, -⟩, -, ⟨htop, hproto⟩, -⟩ := tops_tame
  have hmissing {r : Ref} (hr : IsTop r) : ground.own r toJsonKey = none := by
    have hfound := foundAbove_toJsonKey hr
    rw [foundAbove, Heap.findFrom] at hfound
    rw [Heap.own]
    cases hown : (ground.object r).own toJsonKey with
    | none => rfl
    | some p => simp [hown] at hfound
  have hnone : ground.Reads objectTop toJsonKey .undefined :=
    ⟨0, .nowhere hobject (hmissing (.inl rfl)) htop⟩
  exact ⟨hnone, Heap.reads_above harray (hmissing (.inr rfl)) hproto hnone⟩

/-- A value that holds a document is no function. -/
theorem Bears.not_callable (hb : Bears h realm low high v j) : h.callable v = false := by
  cases hb with
  | arr items _ _ hobject => simp [Heap.callable, hobject, Heap.arrayFor, Object.callable]
  | obj members _ _ _ hobject => simp [Heap.callable, hobject, Heap.objectFor, Object.callable]
  | _ => rfl

/-! ## Showing a document -/

/-- Results that are known for each element are known for all of them. -/
theorem Eval.collect_of_done {α β : Type} {f : α → Eval β} {pairs : List (α × β)}
    (hf : ∀ p ∈ pairs, f p.1 h = .done (.ok p.2, h)) :
    Eval.collect f (pairs.map Prod.fst) h = .done (.ok (pairs.map Prod.snd), h) := by
  induction pairs with
  | nil => rfl
  | cons p pairs ih =>
    obtain ⟨hp, hrest⟩ := List.forall_mem_cons.mp hf
    rw [List.map_cons, Eval.collect, Eval.bind_of_done hp, Eval.bind_of_done (ih hrest)]
    rfl

/-- A part of a document is portable if the document is, and less deep. -/
theorem part_of_members {members : List ((String × Json) × Value)} {m : (String × Json) × Value}
    (hnames : (members.map fun m => m.1.1).Nodup) (hm : m ∈ members)
    (hj : (Json.ofMembers (members.map Prod.fst)).Portable) :
    m.1.2.Portable ∧ m.1.2.depth < (Json.ofMembers (members.map Prod.fst)).depth := by
  have hlast : Last Prod.fst (members.map Prod.fst) m.1 := by
    rw [Json.last_iff_mem (by rwa [List.map_map])]
    exact List.mem_map_of_mem hm
  have hmem := Json.mem_sortMembers_iff.mpr hlast
  cases hj with
  | obj _ hparts =>
    refine ⟨hparts _ hmem, ?_⟩
    rw [Json.ofMembers, Json.depth, Nat.lt_succ_iff]
    exact Json.memberDepth_le.mp (Nat.le_refl _) _ hmem

/-- Members in the order of their keys are members of the same document. -/
theorem ofMembers_of_keys {members ns : List ((String × Json) × Value)}
    (hnames : (members.map fun n => n.1.1).Nodup) (hns : ∀ n ∈ ns, n ∈ members)
    (hkeys : (ns.map fun n => Utf16.ofString n.1.1).Perm
      (members.map fun n => Utf16.ofString n.1.1)) :
    (ns.map fun n => n.1.1).Nodup ∧
      Json.ofMembers (ns.map Prod.fst) = Json.ofMembers (members.map Prod.fst) := by
  have hperm : (ns.map fun n => n.1.1).Perm (members.map fun n => n.1.1) := by
    rw [← List.map_perm_map_iff ofString_injective, List.map_map, List.map_map]
    exact hkeys
  have hnodup := hperm.nodup_iff.mpr hnames
  have hlength : members.length ≤ ns.length := by simpa using hperm.length_eq.ge
  have hmembers : ns.Perm members :=
    (List.subperm_of_subset (List.Nodup.of_map _ hnodup) hns).perm_of_length_le hlength
  refine ⟨hnodup, congrArg Json.obj (Json.sortMembers_congr fun n => ?_)⟩
  rw [Json.last_iff_mem (by rwa [List.map_map]), Json.last_iff_mem (by rwa [List.map_map]),
    (hmembers.map Prod.fst).mem_iff]

/-- An object lists its members in an order of its own, and they can all be seen. -/
theorem exists_listed (h : Heap) (realm : RealmRef) {members : List ((String × Json) × Value)}
    (hnames : (members.map fun n => n.1.1).Nodup) :
    ∃ ns : List ((String × Json) × Value), (∀ n ∈ ns, n ∈ members) ∧
      ((h.objectFor realm (members.map memberProperty)).ownKeys.filter fun k =>
        (((h.objectFor realm (members.map memberProperty)).own k).map
          Property.enumerable).getD false) = ns.map (fun n => Utf16.ofString n.1.1) ∧
      (ns.map fun n => n.1.1).Nodup ∧
      Json.ofMembers (ns.map Prod.fst) = Json.ofMembers (members.map Prod.fst) := by
  have hprops : (h.objectFor realm (members.map memberProperty)).props.map Prod.fst =
      members.map fun n => Utf16.ofString n.1.1 := by
    rw [Heap.objectFor, List.map_map]
    rfl
  have hperm := ownKeys_perm (o := h.objectFor realm (members.map memberProperty)) rfl
  rw [hprops] at hperm
  obtain ⟨pairs, hlist, hpairs⟩ := Json.exists_pairs
    (l := (h.objectFor realm (members.map memberProperty)).ownKeys)
    (P := fun k n => n ∈ members ∧ Utf16.ofString n.1.1 = k)
    fun k hk => List.mem_map.mp (hperm.mem_iff.mp hk)
  have hkeys : (pairs.map Prod.snd).map (fun n => Utf16.ofString n.1.1) = pairs.map Prod.fst := by
    rw [List.map_map]
    exact List.map_congr_left fun p hp => (hpairs p hp).2
  have hmem := List.forall_mem_map.mpr fun p hp => (hpairs p hp).1
  refine ⟨pairs.map Prod.snd, hmem, ?_, ofMembers_of_keys hnames hmem (by rwa [hkeys, hlist])⟩
  rw [hkeys, hlist, List.filter_eq_self]
  intro k hk
  obtain ⟨n, hn, rfl⟩ := List.mem_map.mp (hperm.mem_iff.mp hk)
  rw [own_objectFor hnames hn]
  rfl

variable (m : Machine) {caller : RealmRef}

/-- A value that holds a document is shown as it is. -/
theorem shown_bears (hmute : h.Mute realm) (hb : Bears h realm low high v j)
    (hsize : high ≤ h.objects.size) (holder : Value) (k : Key) :
    shown m caller none holder k v h = .done (.ok v, h) := by
  have hshown {r : Ref} {f : Value} (hf : h.Reads r toJsonKey f) (hno : h.callable f = false)
      (hkind : (h.object r).kind = .plain ∨ (h.object r).kind = .array) :
      shown m caller none holder k (.obj r) h = .done (.ok (.obj r), h) := by
    have hunwrap : unwrap m caller (.obj r) h = .done (.ok (.obj r), h) := by
      simp only [unwrap, Eval.read_bind]
      rcases hkind with hkind | hkind <;> simp only [hkind] <;> rfl
    have hget : m.getRef caller r (key "toJSON") h = .done (.ok f, h) := getRef_of_reads m hf
    unfold shown
    refine (Eval.bind_of_done hget).trans ?_
    rw [Eval.read_bind, hno]
    exact hunwrap
  cases hb with
  | @arr _ r items hlow hhigh hobject =>
    have hr : r < h.objects.size := Nat.lt_of_lt_of_le hhigh hsize
    refine hshown (Heap.reads_above hr ?_ ?_ hmute.array) rfl (.inr ?_)
    · rw [Heap.own, hobject]
      exact own_arrayFor_toJson _
    · rw [hobject]
      rfl
    · rw [hobject]
      rfl
  | @obj _ r members hlow hhigh hnames hobject hmembers =>
    have hr : r < h.objects.size := Nat.lt_of_lt_of_le hhigh hsize
    have hkind : (h.object r).kind = .plain := by
      rw [hobject]
      rfl
    by_cases hname : ∃ n ∈ members, Utf16.ofString n.1.1 = toJsonKey
    · obtain ⟨n, hn, hkey⟩ := hname
      have hown : (h.objectFor realm (members.map memberProperty)).own (Utf16.ofString n.1.1) =
          some (.plain n.2) := own_objectFor hnames hn
      rw [hkey, ← hobject] at hown
      exact hshown ⟨0, .own hown rfl⟩ (hmembers n hn).not_callable (.inl hkind)
    · have hnone : h.own r toJsonKey = none := by
        rw [Heap.own, hobject]
        exact own_objectFor_eq_none fun n hn hkey => hname ⟨n, hn, hkey⟩
      refine hshown (Heap.reads_above hr hnone ?_ hmute.object) rfl (.inl hkind)
      rw [hobject]
      rfl
  | _ => rfl

/-- An array says how long it is. -/
theorem lengthOf_array {vs : List Value} (hobject : h.object r = h.arrayFor realm vs)
    (hvs : vs.length < 2 ^ 53) : m.lengthOf caller (.obj r) h = .done (.ok vs.length, h) := by
  obtain ⟨hfinite, htruncate⟩ := Numeric.truncate_toFloat hvs
  have hown : h.own r lengthKey = some ⟨.data (.nat vs.length) true, false, false⟩ := by
    rw [Heap.own, hobject]
    exact own_arrayFor_length vs
  have hget : m.get caller (.obj r) lengthKey h = .done (.ok (.nat vs.length), h) :=
    (get_obj m caller).trans (getRef_of_holds m ⟨_, _, _, hown⟩)
  have hinteger : m.toInteger caller (.nat vs.length) h = .done (.ok (vs.length : Int), h) := by
    have hnumber : m.toNumber caller (.nat vs.length) h = .done (.ok vs.length.toFloat, h) := rfl
    rw [toInteger, Eval.bind_of_done hnumber, Numeric.isNaN_of_isFinite hfinite, hfinite,
      htruncate]
    rfl
  rw [lengthOf, Eval.bind_of_done hget, Eval.bind_of_done hinteger]
  rfl

section Snapshot

variable {fuel : Nat} {above : List Ref} {holder : Value}
  (hshown : shown m caller none holder k (.obj r) h = .done (.ok (.obj r), h))
  (hnew : above.contains r = false)
include hshown hnew

/-- An array shows what its items show. -/
theorem snapshot_array {items : List (Json × Value)}
    (hobject : h.object r = h.arrayFor realm (items.map Prod.snd)) (hlength : items.length < 2 ^ 53)
    (hitems : ∀ i ∈ items, ∀ k, ∃ d, snapshot m caller ⟨none, none⟩ fuel (r :: above) (.obj r) k
      i.2 h = .done (.ok (some d), h) ∧ Prints d i.1) :
    ∃ d, snapshot m caller ⟨none, none⟩ (fuel + 1) above holder k (.obj r) h =
      .done (.ok (some d), h) ∧ Prints d (.arr (items.map Prod.fst)) := by
  obtain ⟨pairs, hzip, hpairs⟩ := Json.exists_pairs (l := items.zipIdx)
    (P := fun i (d : Document) => (do
      let item ← m.getRef caller r (natKey i.2)
      snapshot m caller ⟨none, none⟩ fuel (r :: above) (.obj r) (natKey i.2) item :
        Eval (Option Document)) h = .done (.ok (some d), h) ∧ Prints d i.1.1) fun i hi => by
      obtain ⟨hlt, hget⟩ := List.getElem?_eq_some_iff.mp (List.mem_zipIdx_iff_getElem?.mp hi)
      have hown : h.own r (natKey i.2) = some (.plain i.1.2) := by
        rw [Heap.own, hobject, own_arrayFor (by simpa using hlt)]
        simp [hget]
      have hitem : m.getRef caller r (natKey i.2) h = .done (.ok i.1.2, h) :=
        getRef_of_holds m ⟨_, _, _, hown⟩
      rw [Eval.bind_of_done hitem]
      exact hitems i.1 (hget ▸ List.getElem_mem hlt) (natKey i.2)
  have hrange : List.range items.length =
      (pairs.map fun p => (p.1.2, some p.2)).map Prod.fst := by
    have hsnd := congrArg (List.map Prod.snd) hzip
    rw [List.zipIdx_map_snd, ← List.range_eq_range'] at hsnd
    rw [← hsnd, List.map_map, List.map_map]
    rfl
  have hfst : items.map Prod.fst = (pairs.map fun p => (p.1.1.1, p.2)).map Prod.fst := by
    have hitems := congrArg (List.map Prod.fst) hzip
    rw [List.zipIdx_map_fst] at hitems
    rw [← hitems, List.map_map, List.map_map, List.map_map]
    rfl
  refine ⟨.arr (pairs.map fun p => p.2), ?_, ?_⟩
  · have hplain : (h.arrayFor realm (items.map Prod.snd)).callable = false ∧
      (h.arrayFor realm (items.map Prod.snd)).isArray := ⟨rfl, rfl⟩
    have hlengthOf : m.lengthOf caller (.obj r) h =
        .done (.ok (items.map Prod.snd).length, h) :=
      lengthOf_array m hobject (by simpa using hlength)
    unfold snapshot
    rw [Eval.bind_of_done hshown]
    simp only [Eval.read_bind, hobject, hplain.1, hplain.2, Bool.false_eq_true, if_false, hnew,
      if_true]
    rw [Eval.bind_of_done hlengthOf, List.length_map, hrange,
      Eval.bind_of_done (Eval.collect_of_done ?_)]
    · simp
    · exact List.forall_mem_map.mpr fun p hp => (hpairs p hp).1
  · have hprints := prints_arr (pairs.map fun p => (p.1.1.1, p.2))
      (List.forall_mem_map.mpr fun p hp => (hpairs p hp).2)
    rwa [← hfst, List.map_map] at hprints

/-- An object shows what its members show. -/
theorem snapshot_object {members : List ((String × Json) × Value)}
    (hnames : (members.map fun m => m.1.1).Nodup)
    (hobject : h.object r = h.objectFor realm (members.map memberProperty))
    (hmembers : ∀ n ∈ members, ∀ k, ∃ d, snapshot m caller ⟨none, none⟩ fuel (r :: above) (.obj r) k
      n.2 h = .done (.ok (some d), h) ∧ Prints d n.1.2) :
    ∃ d, snapshot m caller ⟨none, none⟩ (fuel + 1) above holder k (.obj r) h =
      .done (.ok (some d), h) ∧ Prints d (Json.ofMembers (members.map Prod.fst)) := by
  obtain ⟨ns, hns, hkeys, hnames', hsame⟩ := exists_listed h realm hnames
  obtain ⟨pairs, rfl, hpairs⟩ := Json.exists_pairs (l := ns)
    (P := fun n d => Prints d n.1.2 ∧ (do
      let member ← m.getRef caller r (Utf16.ofString n.1.1)
      return (← snapshot m caller ⟨none, none⟩ fuel (r :: above) (.obj r) (Utf16.ofString n.1.1)
        member).map (Utf16.ofString n.1.1, ·) : Eval (Option (Key × Document))) h =
        .done (.ok (some (Utf16.ofString n.1.1, d)), h)) fun n hn => by
      have hown : h.own r (Utf16.ofString n.1.1) = some (.plain n.2) := by
        rw [Heap.own, hobject]
        exact own_objectFor hnames (hns n hn)
      have hmember : m.getRef caller r (Utf16.ofString n.1.1) h = .done (.ok n.2, h) :=
        getRef_of_holds m ⟨_, _, _, hown⟩
      obtain ⟨d, hd, hprints⟩ := hmembers n (hns n hn) (Utf16.ofString n.1.1)
      refine ⟨d, hprints, ?_⟩
      rw [Eval.bind_of_done hmember, Eval.bind_of_done hd]
      rfl
  refine ⟨.obj (pairs.map fun p => (Utf16.ofString p.1.1.1, p.2)), ?_, ?_⟩
  · have hplain : (h.objectFor realm (members.map memberProperty)).callable = false ∧
      (h.objectFor realm (members.map memberProperty)).isArray = false := ⟨rfl, rfl⟩
    have hlist : (pairs.map Prod.fst).map (fun n => Utf16.ofString n.1.1) =
        (pairs.map fun p => (Utf16.ofString p.1.1.1, some (Utf16.ofString p.1.1.1, p.2))).map
          Prod.fst := by
      rw [List.map_map, List.map_map]
      rfl
    unfold snapshot
    rw [Eval.bind_of_done hshown]
    simp only [Eval.read_bind, hobject, hplain.1, hplain.2, Bool.false_eq_true, if_false, hnew,
      Option.getD_none, hkeys]
    rw [hlist, Eval.bind_of_done (Eval.collect_of_done ?_)]
    · simp
    · exact List.forall_mem_map.mpr fun p hp => (hpairs p hp).2
  · rw [List.map_map] at hnames' hsame
    have hprints := prints_obj (pairs.map fun p => (p.1.1, p.2))
      (List.forall_mem_map.mpr fun p hp => (hpairs p hp).1) (by rwa [List.map_map])
    rw [List.map_map, List.map_map] at hprints
    rw [← hsame]
    exact hprints

end Snapshot

/-- A value that holds a document shows data from which the document is written. -/
theorem snapshot_bears (hmute : h.Mute realm) (hb : Bears h realm low high v j)
    (hsize : high ≤ h.objects.size) (hj : j.Portable) {fuel : Nat} (hdepth : j.depth < fuel)
    {above : List Ref} (habove : ∀ x ∈ above, high ≤ x) (holder : Value) (k : Key) :
    ∃ d, snapshot m caller ⟨none, none⟩ fuel above holder k v h = .done (.ok (some d), h) ∧
      Prints d j := by
  have hshown : ∀ holder k, shown m caller none holder k v h = .done (.ok v, h) :=
    fun holder k => shown_bears m hmute hb hsize holder k
  obtain ⟨fuel, rfl⟩ : ∃ f, fuel = f + 1 := ⟨fuel - 1, by omega⟩
  induction hb generalizing fuel above holder k with
  | null => exact ⟨.null, rfl, prints_null⟩
  | bool b => exact ⟨.bool b, rfl, prints_bool b⟩
  | num n => exact ⟨.num (Numeric.ofInt n), rfl, prints_num (by cases hj; assumption)⟩
  | str s => exact ⟨.str (Utf16.ofString s), rfl, prints_str s⟩
  | @arr high r items hlow hhigh hobject hitems ih =>
    have hinside : r ≤ h.objects.size := Nat.le_trans (Nat.le_of_lt hhigh) hsize
    obtain ⟨hlength, hparts⟩ : items.length < 2 ^ 53 ∧ ∀ i ∈ items, i.1.Portable := by
      cases hj with
      | arr _ hlength hparts => exact ⟨by simpa using hlength, List.forall_mem_map.mp hparts⟩
    have hnew : above.contains r = false := by
      simpa using fun hr => Nat.not_le_of_lt hhigh (habove r hr)
    refine snapshot_array m (hshown holder k) hnew hobject hlength fun i hi k => ?_
    have hless : i.1.depth < fuel := by
      rw [Json.depth, Nat.succ_lt_succ_iff] at hdepth
      exact Nat.lt_of_le_of_lt
        (Json.itemDepth_le.mp (Nat.le_refl _) _ (List.mem_map_of_mem hi)) hdepth
    obtain ⟨fuel, rfl⟩ : ∃ f, fuel = f + 1 := ⟨fuel - 1, by omega⟩
    refine ih i hi hinside (hparts i hi) (List.forall_mem_cons.mpr ⟨Nat.le_refl r, fun x hx =>
      Nat.le_trans (Nat.le_of_lt hhigh) (habove x hx)⟩) (.obj r) k ?_ fuel hless
    exact fun holder k => shown_bears m hmute (hitems i hi) hinside holder k
  | @obj high r members hlow hhigh hnames hobject hmembers ih =>
    have hinside : r ≤ h.objects.size := Nat.le_trans (Nat.le_of_lt hhigh) hsize
    have hnew : above.contains r = false := by
      simpa using fun hr => Nat.not_le_of_lt hhigh (habove r hr)
    refine snapshot_object m (hshown holder k) hnew hnames hobject fun n hn k => ?_
    obtain ⟨hpart, hless⟩ := part_of_members hnames hn hj
    obtain ⟨fuel, rfl⟩ : ∃ f, fuel = f + 1 := ⟨fuel - 1, by omega⟩
    refine ih n hn hinside hpart (List.forall_mem_cons.mpr ⟨Nat.le_refl r, fun x hx =>
      Nat.le_trans (Nat.le_of_lt hhigh) (habove x hx)⟩) (.obj r) k ?_ fuel (by omega)
    exact fun holder k => shown_bears m hmute (hmembers n hn) hinside holder k

end LoadHook.Script
