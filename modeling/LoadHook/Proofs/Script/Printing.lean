import LoadHook.Proofs.Json.Texts
import LoadHook.Proofs.Script.Units

/-!
# What is written of data

Data that hold a document are written without white space as a text that is read as the document.
Members are written in the order in which they are given: it is the text of an object with these
members, whatever their order.
-/
namespace LoadHook.Script.Document

open Text (Utf16)
open Text.Utf16 (ofChar ofChars)
open Json (Entry Wellformed)

/-- What is written of data is read as a document. -/
def Prints (d : Document) (j : Json) : Prop :=
  ∃ text, Wellformed text ∧ Json.Reads j text ∧ d.print [] [] = ofChars text

/-! ## Values without parts -/

theorem prints_null : Prints .null .null := ⟨_, .null, Json.reads_null, rfl⟩

theorem prints_bool (b : Bool) : Prints (.bool b) (.bool b) :=
  ⟨_, .bool b, Json.reads_bool b, by cases b <;> rfl⟩

theorem prints_num {n : Int} (hn : n.natAbs < 2 ^ 53) :
    Prints (.num (Numeric.ofInt n)) (.int n) := by
  have low : -Int.pow 2 63 ≤ n := by
    have : Int.pow 2 63 = 9223372036854775808 := rfl
    omega
  have high : n < Int.pow 2 64 := by
    have : Int.pow 2 64 = 18446744073709551616 := rfl
    omega
  refine ⟨_, (Json.Writes.int n).wellformed, Json.reads_int low high, ?_⟩
  rw [print, if_pos (Numeric.isFinite_ofInt hn), Numeric.text_ofInt hn, key, Utf16.ofString,
    String.toList_ofList]

/-- A unit beyond ASCII stands for itself, unless it is half of a pair. -/
theorem quoteUnit_self {u : UInt16} (hu : 0x80 ≤ u.toNat) (hlead : Utf16.isLead u = false)
    (htrail : Utf16.isTrail u = false) : quoteUnit u = [u] := by
  have hne : ∀ v : UInt16, v.toNat < 0x80 → (u == v) = false := by
    intro v hv
    rw [beq_eq_false_iff_ne]
    rintro rfl
    omega
  have hlt : decide (u < 32) = false := by
    rw [decide_eq_false_iff_not, UInt16.lt_iff_toNat_lt]
    change ¬ u.toNat < 32
    omega
  simp only [quoteUnit, hne 34 (by decide), hne 92 (by decide), hne 8 (by decide),
    hne 12 (by decide), hne 10 (by decide), hne 13 (by decide), hne 9 (by decide), hlt, hlead,
    htrail, Bool.or_self, Bool.false_eq_true, if_false]

/-- A unit of the basic plane is escaped as its character is. -/
theorem quoteUnit_eq {ch : Char} {u : UInt16} (hu : ofChar ch = [u])
    (hlead : Utf16.isLead u = false) (htrail : Utf16.isTrail u = false)
    (hch : Char.ofNat u.toNat = ch) : quoteUnit u = ofChars (Json.escapeChar ch) := by
  by_cases hsmall : u.toNat < 0x80
  · have hall : ∀ n < 0x80, quoteUnit n.toUInt16 = ofChars (Json.escapeChar (Char.ofNat n)) := by
      decide
    have h := hall _ hsmall
    rwa [hch, show u.toNat.toUInt16 = u from UInt16.ofNat_toNat] at h
  · have hplain : ∀ d : Char, d.toNat < 0x80 → ofChar d = [d.toNat.toUInt16] → ch ≠ d := by
      rintro d hd hchar rfl
      rw [hu, List.singleton_inj] at hchar
      rw [hchar, Text.Utf16.toNat_unit (by omega)] at hsmall
      exact hsmall hd
    have hself : Json.escapeChar ch = [ch] := by
      refine Json.escapeChar_eq_self ⟨Nat.le_of_not_lt fun hlt => ?_, hplain _ (by decide) rfl,
        hplain _ (by decide) rfl⟩
      rw [ofChar, if_pos (by omega), List.singleton_inj] at hu
      rw [← hu, Text.Utf16.toNat_unit (by omega)] at hsmall
      omega
    rw [quoteUnit_self (by omega) hlead htrail, hself, ofChars_cons, hu]
    rfl

theorem quoteUnits_eq (cs : List Char) :
    quoteUnits (ofChars cs) = ofChars (cs.flatMap Json.escapeChar) := by
  induction cs with
  | nil => rfl
  | cons ch cs ih =>
    rw [ofChars_cons, List.flatMap_cons, ofChars_append, ← ih]
    by_cases hch : ch.toNat < 0x10000
    · obtain ⟨u, hu, hlead, htrail, hback⟩ := Text.Utf16.ofChar_of_lt hch
      rw [hu, ← quoteUnit_eq hu hlead htrail hback, List.singleton_append]
      cases ofChars cs with
      | nil => simp [quoteUnits]
      | cons v us => simp [quoteUnits, hlead]
    · obtain ⟨u, v, huv, hlead, htrail, -⟩ := Text.Utf16.ofChar_of_ge (Nat.not_lt.mp hch)
      have hself : Json.escapeChar ch = [ch] := by
        refine Json.escapeChar_eq_self ⟨by omega, ?_, ?_⟩ <;> rintro rfl <;> exact hch (by decide)
      rw [hself, huv, ofChars_cons, huv]
      simp [quoteUnits, hlead, htrail]

theorem quote_eq (s : String) : quote (Utf16.ofString s) = ofChars (Json.quote s.toList) := by
  rw [quote, Utf16.ofString, quoteUnits_eq, Json.quote, ofChars_append]
  rfl

theorem prints_str (s : String) : Prints (.str (Utf16.ofString s)) (.str s) := by
  have hquotes := Json.quotes_flatMap_escapeChar s.toList
  refine ⟨_, .str hquotes, Json.reads_str hquotes, ?_⟩
  rw [print, quote_eq]
  rfl

/-! ## Arrays and objects -/

theorem printItems_eq {pairs : List (Document × List Char)}
    (h : ∀ p ∈ pairs, p.1.print [] [] = ofChars p.2) :
    printItems [] [] (pairs.map Prod.fst) =
      ofChars ((pairs.map fun p => Entry.bare p.2).flatMap fun e => ',' :: e.chars) := by
  induction pairs with
  | nil => rfl
  | cons p pairs ih =>
    obtain ⟨hp, hrest⟩ := List.forall_mem_cons.mp h
    rw [List.map_cons, printItems, hp, ih hrest, List.map_cons, List.flatMap_cons, ofChars_append]
    simp [Entry.bare, Entry.chars, lineStart]
    rfl

theorem print_arr {pairs : List (Document × List Char)}
    (h : ∀ p ∈ pairs, p.1.print [] [] = ofChars p.2) :
    print [] [] (.arr (pairs.map Prod.fst)) =
      ofChars ('[' :: (Entry.between [] (pairs.map fun p => Entry.bare p.2) ++ [']'])) := by
  cases pairs with
  | nil => rfl
  | cons p pairs =>
    obtain ⟨hp, hrest⟩ := List.forall_mem_cons.mp h
    have hfirst : (Entry.bare p.2).chars = p.2 := by simp [Entry.bare, Entry.chars]
    rw [List.map_cons, print, List.append_nil, hp, printItems_eq hrest, List.map_cons,
      Entry.between, hfirst, ofChars_cons, ofChars_append, ofChars_append]
    simp [lineStart]
    rfl

/-- What is written of items is read as an array of them. -/
theorem prints_arr (items : List (Json × Document)) (h : ∀ i ∈ items, Prints i.2 i.1) :
    Prints (.arr (items.map Prod.snd)) (.arr (items.map Prod.fst)) := by
  obtain ⟨pairs, rfl, hpairs⟩ := Json.exists_pairs h
  have hfits : ∀ i ∈ pairs.map fun p => (p.1.1, Entry.bare p.2), i.2.Fits none :=
    List.forall_mem_map.mpr fun p _ => Entry.fits_bare p.2
  have hword : ∀ i ∈ pairs.map fun p => (p.1.1, Entry.bare p.2), Wellformed i.2.text :=
    List.forall_mem_map.mpr fun p hp => (hpairs p hp).1
  have hread : ∀ i ∈ pairs.map fun p => (p.1.1, Entry.bare p.2), Json.Reads i.1 i.2.text :=
    List.forall_mem_map.mpr fun p hp => (hpairs p hp).2.1
  have hform := Wellformed.arr [] _ Json.blank_nil (List.forall_mem_map.mpr hfits)
    (List.forall_mem_map.mpr hword)
  have hreads := Json.reads_arr _ Json.blank_nil hfits hword hread
  have htexts : ∀ p ∈ pairs.map fun p => (p.1.2, p.2), p.1.print [] [] = ofChars p.2 :=
    List.forall_mem_map.mpr fun p hp => (hpairs p hp).2.2
  have hprint := print_arr htexts
  simp only [List.map_map] at hform hreads hprint ⊢
  exact ⟨_, hform, hreads, hprint⟩

/-- A member is written with its name, which is the name that it has. -/
theorem printMember_eq {name : String} {d : Document} {text : List Char}
    (h : d.print [] [] = ofChars text) :
    printMember [] [] (Utf16.ofString name, d) = ofChars (Entry.named name text).chars := by
  rw [printMember, quote_eq, h]
  simp [Entry.named, Entry.chars, ofChars_append]
  rfl

theorem printMembers_eq {pairs : List ((String × Document) × List Char)}
    (h : ∀ p ∈ pairs, p.1.2.print [] [] = ofChars p.2) :
    printMembers [] [] (pairs.map fun p => (Utf16.ofString p.1.1, p.1.2)) =
      ofChars ((pairs.map fun p => Entry.named p.1.1 p.2).flatMap fun e => ',' :: e.chars) := by
  induction pairs with
  | nil => rfl
  | cons p pairs ih =>
    obtain ⟨hp, hrest⟩ := List.forall_mem_cons.mp h
    rw [List.map_cons, printMembers, printMember_eq hp, ih hrest, List.map_cons,
      List.flatMap_cons, ofChars_append]
    simp [lineStart]
    rfl

theorem print_obj {pairs : List ((String × Document) × List Char)}
    (h : ∀ p ∈ pairs, p.1.2.print [] [] = ofChars p.2) :
    print [] [] (.obj (pairs.map fun p => (Utf16.ofString p.1.1, p.1.2))) =
      ofChars ('{' :: (Entry.between [] (pairs.map fun p => Entry.named p.1.1 p.2) ++
        ['}'])) := by
  cases pairs with
  | nil => rfl
  | cons p pairs =>
    obtain ⟨hp, hrest⟩ := List.forall_mem_cons.mp h
    rw [List.map_cons, print, List.append_nil, printMember_eq hp, printMembers_eq hrest,
      List.map_cons, Entry.between, ofChars_cons, ofChars_append, ofChars_append]
    simp [lineStart]
    rfl

/-- What is written of members is read as an object of them. -/
theorem prints_obj (members : List ((String × Json) × Document))
    (h : ∀ m ∈ members, Prints m.2 m.1.2) (hnames : (members.map fun m => m.1.1).Nodup) :
    Prints (.obj (members.map fun m => (Utf16.ofString m.1.1, m.2)))
      (Json.ofMembers (members.map Prod.fst)) := by
  obtain ⟨pairs, rfl, hpairs⟩ := Json.exists_pairs h
  have hfits : ∀ m ∈ pairs.map fun p => (p.1.1, Entry.named p.1.1.1 p.2),
      m.2.Fits (some (Utf16.ofString m.1.1)) :=
    List.forall_mem_map.mpr fun p _ => Entry.fits_named p.1.1.1 p.2
  have hword : ∀ m ∈ pairs.map fun p => (p.1.1, Entry.named p.1.1.1 p.2), Wellformed m.2.text :=
    List.forall_mem_map.mpr fun p hp => (hpairs p hp).1
  have hread : ∀ m ∈ pairs.map fun p => (p.1.1, Entry.named p.1.1.1 p.2),
      Json.Reads m.1.2 m.2.text :=
    List.forall_mem_map.mpr fun p hp => (hpairs p hp).2.1
  have hform := Wellformed.obj [] _ Json.blank_nil
    (List.forall_mem_map.mpr fun m hm => ⟨_, hfits m hm⟩) (List.forall_mem_map.mpr hword)
  have hreads := Json.reads_obj _ Json.blank_nil hfits hread
    (by rwa [List.map_map] at hnames ⊢)
  have htexts : ∀ p ∈ pairs.map fun p => ((p.1.1.1, p.1.2), p.2),
      p.1.2.print [] [] = ofChars p.2 :=
    List.forall_mem_map.mpr fun p hp => (hpairs p hp).2.2
  have hprint := print_obj htexts
  simp only [List.map_map] at hform hreads hprint ⊢
  exact ⟨_, hform, hreads, hprint⟩

end LoadHook.Script.Document
