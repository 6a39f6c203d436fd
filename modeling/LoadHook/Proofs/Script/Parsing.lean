import LoadHook.Proofs.Json.Entries
import LoadHook.Proofs.Script.Units

/-!
# Reading data from units

Every text of a document is read as data that stand for the document, however it is written. A
member that is replaced by a later one of its name is read as well; it only must be in good form.
-/
namespace LoadHook.Script.Document

open Text (Utf16)
open Text.Utf16 (ofChar ofChars)
open Json (Blank Magnitude Quotes Entry Wellformed Tells Last)
open Numeric (minus)

variable {cs rest text : List Char} {us vs : Utf16} {ch : Char}

/-! ## Values -/

/-- A text is read as data, whatever white space stands before it. -/
def Reads (text : List Char) (d : Document) : Prop :=
  ∀ (n : Nat) (us : Utf16) (rest : List Char), skipSpace us = ofChars (text ++ rest) →
    Json.Cursor.EndsNumber rest → text.length < n → value? n us = some (d, ofChars rest)

theorem isSpace_eq_false (hch : Json.Cursor.isSpace ch = false) :
    ∃ u us, ofChar ch = u :: us ∧ isSpace u = false := by
  obtain ⟨u, us, hu, hunit⟩ := ofChar_begins ch
  refine ⟨u, us, hu, ?_⟩
  have hne : ∀ d : Char, Json.Cursor.isSpace d = true → d.toNat < 0x80 → u ≠ d.toNat.toUInt16 := by
    rintro d hd hlt rfl
    rw [Text.Utf16.toNat_unit (by omega)] at hunit
    obtain he | he := hunit
    · rw [← Char.toNat_inj.mp he, hd] at hch
      cases hch
    · omega
  simp only [isSpace, Bool.or_eq_false_iff, beq_eq_false_iff_ne]
  exact ⟨⟨⟨hne ' ' rfl (by decide), hne '\t' rfl (by decide)⟩, hne '\n' rfl (by decide)⟩,
    hne '\r' rfl (by decide)⟩

/-- White space is passed up to the next token. -/
theorem skipSpace_token {before : List Char} (h : Blank before)
    (hch : Json.Cursor.isSpace ch = false) :
    skipSpace (ofChars (before ++ ch :: rest)) = ofChars (ch :: rest) := by
  obtain ⟨u, us, hu, hspace⟩ := isSpace_eq_false hch
  rw [ofChars_append, skipSpace_blank h, ofChars_cons, hu]
  exact skipSpace_cons hspace

theorem skipSpace_skipSpace (us : Utf16) : skipSpace (skipSpace us) = skipSpace us :=
  List.dropWhile_idempotent _ _

theorem skipSpace_wellformed {before : List Char} (h : Blank before) (hform : Wellformed text) :
    skipSpace (ofChars (before ++ (text ++ rest))) = ofChars (text ++ rest) := by
  obtain ⟨ch, cs, rfl, hspace, -⟩ := hform.cons
  exact skipSpace_token h hspace

theorem head_of_fits {e : Entry} (h : e.Fits none) : e.head = [] := by
  obtain ⟨hhead, -, -⟩ := h
  generalize e.head = head at hhead
  cases hhead
  rfl

/-- The first of some items is read. -/
theorem value?_item {e : Entry} {d : Document} {es : List Entry} {n : Nat} (hfits : e.Fits none)
    (hform : Wellformed e.text) (hreads : Reads e.text d) (hn : e.text.length < n)
    (hus : skipSpace us = skipSpace
      (ofChars (Entry.remaining true [] (e :: es) ++ ']' :: rest))) :
    value? n us = some (d, ofChars (Entry.remaining false e.after es ++ ']' :: rest)) := by
  simp only [Entry.remaining, if_true, List.nil_append, List.append_assoc, head_of_fits hfits]
    at hus
  exact hreads n us _ (hus.trans (skipSpace_wellformed hfits.before hform))
    (Json.Cursor.endsNumber_remaining false hfits.after) hn

theorem length_remaining (e : Entry) (es : List Entry) :
    e.text.length + (Entry.remaining false e.after es).length ≤
      (Entry.remaining true [] (e :: es)).length := by
  simp only [Entry.remaining, if_true, List.nil_append, List.length_append]
  omega

/-- Between two items there is a comma. -/
theorem skipSpace_comma {blank : List Char} (h : Blank blank) (e : Entry) (es : List Entry) :
    skipSpace (ofChars (Entry.remaining false blank (e :: es) ++ rest)) =
      44 :: ofChars (Entry.remaining true [] (e :: es) ++ rest) := by
  have hchars : Entry.remaining false blank (e :: es) ++ rest =
      blank ++ ',' :: (Entry.remaining true [] (e :: es) ++ rest) := by
    simp [Entry.remaining]
  rw [hchars]
  exact skipSpace_token h (by decide)

/-- A reader of lists reads an entry: it ends behind what closes the list, or goes on behind a
comma. -/
structure ReadsEntry {α : Type} (f : Nat → Utf16 → Option (List α × Utf16)) (close : Char)
    (e : Entry) (a : α) : Prop where
  last : ∀ {n us rest}, e.text.length < n →
    skipSpace us = skipSpace (ofChars (Entry.remaining true [] [e] ++ close :: rest)) →
    f (n + 1) us = some ([a], ofChars rest)
  more : ∀ {n us rest e' es}, e.text.length < n →
    skipSpace us = skipSpace (ofChars (Entry.remaining true [] (e :: e' :: es) ++ close :: rest)) →
    f (n + 1) us = (f n (ofChars (Entry.remaining true [] (e' :: es) ++ close :: rest))).map
      fun (as, rest) => (a :: as, rest)

/-- Entries are read one after the other, up to what closes the list. -/
theorem ReadsEntry.all {α : Type} {f : Nat → Utf16 → Option (List α × Utf16)} {close : Char}
    {e : Entry} {a : α} {items : List (Entry × α)} {n : Nat}
    (hall : ∀ i ∈ (e, a) :: items, ReadsEntry f close i.1 i.2)
    (hn : (Entry.remaining true [] (e :: items.map Prod.fst)).length + 1 < n)
    (hus : skipSpace us = skipSpace
      (ofChars (Entry.remaining true [] (e :: items.map Prod.fst) ++ close :: rest))) :
    f n us = some (a :: items.map Prod.snd, ofChars rest) := by
  induction items generalizing e a n us with
  | nil =>
    obtain ⟨n, rfl⟩ : ∃ m, n = m + 1 := ⟨n - 1, by omega⟩
    have hlength := length_remaining e []
    rw [List.map_nil] at hn
    exact (hall (e, a) List.mem_cons_self).last (show e.text.length < n by omega) hus
  | cons i items ih =>
    obtain ⟨n, rfl⟩ : ∃ m, n = m + 1 := ⟨n - 1, by omega⟩
    have hlength := length_remaining e (i.1 :: items.map Prod.fst)
    have hcomma : (Entry.remaining true [] (i.1 :: items.map Prod.fst)).length <
        (Entry.remaining false e.after (i.1 :: items.map Prod.fst)).length := by
      simp [Entry.remaining]
      omega
    rw [List.map_cons] at hn
    have hrest : f n (ofChars (Entry.remaining true [] (i.1 :: items.map Prod.fst) ++
        close :: rest)) = some (i.2 :: items.map Prod.snd, ofChars rest) :=
      ih (List.forall_mem_cons.mp hall).2 (by omega) rfl
    rw [(hall (e, a) List.mem_cons_self).more (show e.text.length < n by omega) hus, hrest]
    rfl

theorem readsEntry_item {e : Entry} {d : Document} (hfits : e.Fits none)
    (hform : Wellformed e.text) (hreads : Reads e.text d) : ReadsEntry items? ']' e d where
  last {n us rest} hn hus := by
    have hclose : skipSpace (ofChars (e.after ++ ']' :: rest)) = 93 :: ofChars rest :=
      skipSpace_token hfits.after (by decide)
    rw [items?, value?_item hfits hform hreads hn hus]
    simp only [Option.bind_eq_bind, Option.bind_some, Entry.remaining, hclose]
  more hn hus := by
    rw [items?, value?_item hfits hform hreads hn hus]
    simp only [Option.bind_eq_bind, Option.bind_some, skipSpace_comma hfits.after]

/-- The first of some members is read. -/
theorem members?_cons {e : Entry} {name : Utf16} {d : Document} {es : List Entry} {n : Nat}
    (hfits : e.Fits (some name)) (hform : Wellformed e.text) (hreads : Reads e.text d)
    (hn : e.text.length < n)
    (hus : skipSpace us = skipSpace
      (ofChars (Entry.remaining true [] (e :: es) ++ '\x7d' :: rest))) :
    members? (n + 1) us =
      match skipSpace (ofChars (Entry.remaining false e.after es ++ '\x7d' :: rest)) with
      | 44 :: rest => (members? n rest).map fun (ms, rest) => ((name, d) :: ms, rest)
      | 125 :: rest => some ([(name, d)], rest)
      | _ => none := by
  obtain ⟨hhead, hbefore, hafter⟩ := hfits
  simp only [Entry.remaining, if_true, List.nil_append, List.append_assoc] at hus
  generalize e.head = head at hhead hus
  cases hhead with
  | @member _ front body back hfront hname hback =>
    have hvalue : ∀ us, skipSpace us = skipSpace (ofChars (e.before ++ (e.text ++
        (Entry.remaining false e.after es ++ '\x7d' :: rest)))) →
        value? n us = some (d, ofChars (Entry.remaining false e.after es ++ '\x7d' :: rest)) :=
      fun us h => hreads n us _ (h.trans (skipSpace_wellformed hbefore hform))
        (Json.Cursor.endsNumber_remaining true hafter) hn
    generalize Entry.remaining false e.after es ++ '\x7d' :: rest = more at hvalue hus ⊢
    have hquote : skipSpace us = 34 :: (ofChars body ++ 34 :: ofChars (back ++ ':' ::
        (e.before ++ (e.text ++ more)))) := by
      simp only [List.append_assoc, List.cons_append, List.nil_append] at hus
      rw [hus, skipSpace_token hfront (by decide)]
      change 34 :: ofChars _ = _
      rw [ofChars_append]
      rfl
    have hcolon : skipSpace (ofChars (back ++ ':' :: (e.before ++ (e.text ++ more)))) =
        58 :: ofChars (e.before ++ (e.text ++ more)) := skipSpace_token hback (by decide)
    rw [members?, hquote]
    simp only [text?_eq hname, Option.bind_eq_bind, Option.bind_some, hcolon]
    exact congrArg (Option.bind · _) (hvalue _ rfl)

theorem readsEntry_member {e : Entry} {name : Utf16} {d : Document} (hfits : e.Fits (some name))
    (hform : Wellformed e.text) (hreads : Reads e.text d) :
    ReadsEntry members? '\x7d' e (name, d) where
  last {n us rest} hn hus := by
    have hclose : skipSpace (ofChars (e.after ++ '\x7d' :: rest)) = 125 :: ofChars rest :=
      skipSpace_token hfits.after (by decide)
    rw [members?_cons hfits hform hreads hn hus]
    simp only [Entry.remaining, hclose]
  more hn hus := by
    rw [members?_cons hfits hform hreads hn hus]
    simp only [skipSpace_comma hfits.after]

/-! ## Texts of each form -/

theorem reads_null : Reads ['n', 'u', 'l', 'l'] .null := by
  intro n us rest hus _ hn
  obtain ⟨n, rfl⟩ : ∃ m, n = m + 1 := ⟨n - 1, by omega⟩
  rw [value?.eq_def]
  simp only [hus]
  rfl

theorem reads_bool (b : Bool) :
    Reads (if b then ['t', 'r', 'u', 'e'] else ['f', 'a', 'l', 's', 'e']) (.bool b) := by
  intro n us rest hus _ hn
  obtain ⟨n, rfl⟩ : ∃ m, n = m + 1 := ⟨n - 1, by omega⟩
  rw [value?.eq_def]
  simp only [hus]
  cases b <;> rfl

theorem reads_str {body : List Char} (h : Quotes vs body) :
    Reads ('"' :: (body ++ ['"'])) (.str vs) := by
  intro n us rest hus _ hn
  obtain ⟨n, rfl⟩ : ∃ m, n = m + 1 := ⟨n - 1, by omega⟩
  have hquote : skipSpace us = 34 :: (ofChars body ++ 34 :: ofChars rest) := by
    rw [hus]
    change 34 :: ofChars (body ++ ['"'] ++ rest) = _
    rw [List.append_assoc, ofChars_append]
    rfl
  rw [value?.eq_def]
  simp only [hquote, text?_eq h, Option.map_some]

theorem reads_number (negative : Bool) (h : Magnitude text) {x : Float} {more : List Char}
    (hx : Numeric.decimalAt (minus negative ++ text) = some (x, more)) :
    Reads (minus negative ++ text) (.num x) := by
  intro n us rest hus hrest hn
  obtain ⟨n, rfl⟩ : ∃ m, n = m + 1 := ⟨n - 1, by omega⟩
  have hnumber := number?_eq negative h hrest
  rw [hx, Option.map_some] at hnumber
  rw [List.append_assoc] at hus
  obtain ⟨d, tail, rfl, hd⟩ := h.cons
  have hrange := toNat_of_isDigit hd
  obtain ⟨u, vs, hu, hunit⟩ : ∃ u vs, ofChars (minus negative ++ (d :: tail ++ rest)) = u :: vs ∧
      (45 ≤ u.toNat ∧ u.toNat ≤ 57 ∧ u.toNat ≠ 34) := by
    cases negative with
    | true => exact ⟨45, _, rfl, by decide⟩
    | false =>
      have hunit : d.toNat.toUInt16.toNat = d.toNat := Text.Utf16.toNat_unit (by omega)
      exact ⟨_, _, ofChars_cons_of_lt (by omega) _, by rw [hunit]; omega⟩
  rw [hu] at hus hnumber
  rw [value?.eq_def]
  simp only [hus]
  split
  all_goals first
    | (rename_i h; have := congrArg UInt16.toNat (List.cons.inj h).1; simp at this; omega)
    | skip
  rw [hnumber]
  rfl

theorem reads_arr {blank : List Char} (items : List (Entry × Document)) (hblank : Blank blank)
    (hfits : ∀ i ∈ items, i.1.Fits none) (hform : ∀ i ∈ items, Wellformed i.1.text)
    (hreads : ∀ i ∈ items, Reads i.1.text i.2) :
    Reads ('[' :: (Entry.between blank (items.map Prod.fst) ++ [']']))
      (.arr (items.map Prod.snd)) := by
  intro n us rest hus _ hn
  obtain ⟨n, rfl⟩ : ∃ m, n = m + 1 := ⟨n - 1, by omega⟩
  have hopen : skipSpace us =
      91 :: ofChars (Entry.remaining true blank (items.map Prod.fst) ++ ']' :: rest) := by
    rw [hus, Entry.between_eq, List.cons_append, List.append_assoc]
    rfl
  rw [value?.eq_def]
  simp only [hopen]
  cases items with
  | nil =>
    have hclose : skipSpace (ofChars (blank ++ ']' :: rest)) = 93 :: ofChars rest :=
      skipSpace_token hblank (by decide)
    simp only [List.map_nil, Entry.remaining, hclose]
  | cons i items =>
    have hread : items? n (skipSpace (ofChars (Entry.remaining true blank
        (i.1 :: items.map Prod.fst) ++ ']' :: rest))) =
        some (i.2 :: items.map Prod.snd, ofChars rest) :=
      ReadsEntry.all (fun i hi => readsEntry_item (hfits i hi) (hform i hi) (hreads i hi))
        (by simp [Entry.between_eq, Entry.remaining] at hn ⊢; omega)
        (skipSpace_skipSpace _)
    have hnot : ∀ us, skipSpace (ofChars (Entry.remaining true blank (i.1 :: items.map Prod.fst) ++
        ']' :: rest)) ≠ 93 :: us := by
      intro us h
      have hfit := hfits i List.mem_cons_self
      obtain ⟨ch, cs, hcs, hspace, hne⟩ := (hform i List.mem_cons_self).cons
      simp only [Entry.remaining, if_true, List.nil_append, List.append_assoc, hcs,
        head_of_fits hfit, List.cons_append, skipSpace_token hfit.before hspace] at h
      refine head_ne (ch :: (cs ++ (Entry.remaining false i.1.after (items.map Prod.fst) ++
        ']' :: rest))) ']' (by decide) (by simpa using hne) 93 (by rw [h]; rfl) rfl
    rw [List.map_cons]
    split
    · next h => exact absurd h (hnot _)
    · rw [hread]
      rfl

theorem reads_obj {blank : List Char} (items : List (Entry × (Utf16 × Document)))
    (hblank : Blank blank) (hfits : ∀ i ∈ items, i.1.Fits (some i.2.1))
    (hform : ∀ i ∈ items, Wellformed i.1.text) (hreads : ∀ i ∈ items, Reads i.1.text i.2.2) :
    Reads ('\x7b' :: (Entry.between blank (items.map Prod.fst) ++ ['\x7d']))
      (.obj (items.map Prod.snd)) := by
  intro n us rest hus _ hn
  obtain ⟨n, rfl⟩ : ∃ m, n = m + 1 := ⟨n - 1, by omega⟩
  have hopen : skipSpace us =
      123 :: ofChars (Entry.remaining true blank (items.map Prod.fst) ++ '\x7d' :: rest) := by
    rw [hus, Entry.between_eq, List.cons_append, List.append_assoc]
    rfl
  rw [value?.eq_def]
  simp only [hopen]
  cases items with
  | nil =>
    have hclose : skipSpace (ofChars (blank ++ '\x7d' :: rest)) = 125 :: ofChars rest :=
      skipSpace_token hblank (by decide)
    simp only [List.map_nil, Entry.remaining, hclose]
  | cons i items =>
    have hread : members? n (skipSpace (ofChars (Entry.remaining true blank
        (i.1 :: items.map Prod.fst) ++ '\x7d' :: rest))) =
        some (i.2 :: items.map Prod.snd, ofChars rest) :=
      ReadsEntry.all (fun i hi => readsEntry_member (hfits i hi) (hform i hi) (hreads i hi))
        (by simp [Entry.between_eq, Entry.remaining] at hn ⊢; omega)
        (skipSpace_skipSpace _)
    have hnot : ∀ us, skipSpace (ofChars (Entry.remaining true blank (i.1 :: items.map Prod.fst) ++
        '\x7d' :: rest)) ≠ 125 :: us := by
      intro us h
      obtain ⟨hhead, -, -⟩ := hfits i List.mem_cons_self
      simp only [Entry.remaining, if_true, List.nil_append] at h
      generalize i.1.head = head at hhead h
      cases hhead with
      | @member _ front body back hfront hname hback =>
        simp only [List.append_assoc, List.cons_append,
          skipSpace_token hfront (show Json.Cursor.isSpace '"' = false by decide)] at h
        cases h
    rw [List.map_cons]
    split
    · next h => exact absurd h (hnot _)
    · rw [hread]
      rfl

/-- Every well-formed text is read as some data. -/
theorem exists_reads (h : Wellformed text) : ∃ d, Reads text d := by
  have hnumber (negative : Bool) {text : List Char} (h : Magnitude text) :
      ∃ d, Reads (minus negative ++ text) d := by
    have hread := h
    obtain ⟨whole, fraction, exponent, hwhole, -, hfraction, hexponent⟩ := h
    obtain ⟨e, he⟩ := hexponent.power
    exact ⟨_, reads_number negative hread (Numeric.decimalAt_eq negative hwhole hfraction he)⟩
  induction h with
  | null => exact ⟨_, reads_null⟩
  | bool b => exact ⟨_, reads_bool b⟩
  | number h => exact hnumber false h
  | negative h => exact hnumber true h
  | str h => exact ⟨_, reads_str h⟩
  | arr blank items hblank hfits hform ih =>
    obtain ⟨pairs, rfl, hpairs⟩ := Json.exists_pairs ih
    exact ⟨_, reads_arr _ hblank (fun p hp => hfits _ (List.mem_map_of_mem hp))
      (fun p hp => hform _ (List.mem_map_of_mem hp)) hpairs⟩
  | obj blank members hblank hfits hform ih =>
    obtain ⟨pairs, rfl, hpairs⟩ := Json.exists_pairs (P := fun (e : Entry) (m : Utf16 × Document) =>
      e.Fits (some m.1) ∧ Reads e.text m.2) fun e he => by
        obtain ⟨name, hname⟩ := hfits e he
        obtain ⟨d, hd⟩ := ih e he
        exact ⟨(name, d), hname, hd⟩
    exact ⟨_, reads_obj _ hblank (fun p hp => (hpairs p hp).1)
      (fun p hp => hform _ (List.mem_map_of_mem hp)) fun p hp => (hpairs p hp).2⟩

/-! ## Texts of documents -/

/-- Data stand for a document of whole numbers. Of members of one name the last one counts. -/
inductive Stands : Document → Json → Prop where
  | null : Stands .null .null
  | bool (b : Bool) : Stands (.bool b) (.bool b)
  | num (n : Int) : Stands (.num (Numeric.ofInt n)) (.int n)
  | str (s : String) : Stands (.str (Utf16.ofString s)) (.str s)
  | arr (items : List (Json × Document)) (h : ∀ i ∈ items, Stands i.2 i.1) :
      Stands (.arr (items.map Prod.snd)) (.arr (items.map Prod.fst))
  | obj (members : List ((String × Json) × Document))
      (h : ∀ m, Last (·.1.1) members m → Stands m.2 m.1.2) :
      Stands (.obj (members.map fun m => (Utf16.ofString m.1.1, m.2)))
        (Json.ofMembers (members.map Prod.fst))

/-- Each text of a document is read as data that stand for it, where doubles keep its numbers. -/
theorem reads_of_tells {j : Json} (h : Tells j text) (hj : j.Portable) :
    ∃ d, Reads text d ∧ Stands d j := by
  induction h with
  | null => exact ⟨_, reads_null, .null⟩
  | bool b => exact ⟨_, reads_bool b, .bool b⟩
  | @number n _ h =>
    have hsmall : n < 2 ^ 53 := by
      cases hj with
      | int _ hsmall => exact hsmall
    exact ⟨_, reads_number false h.magnitude (Numeric.decimalAt_amount false h hsmall nofun),
      .num n⟩
  | @negative n _ hn h =>
    have hsmall : n < 2 ^ 53 := by
      cases hj with
      | int _ hsmall => simpa using hsmall
    exact ⟨_, reads_number true h.magnitude (Numeric.decimalAt_amount true h hsmall fun _ => hn),
      .num (-n)⟩
  | str h => exact ⟨_, reads_str h, .str _⟩
  | arr blank items hblank hfits h ih =>
    have hitems : ∀ i ∈ items, i.1.Portable := by
      cases hj with
      | arr _ _ hitems => exact List.forall_mem_map.mp hitems
    obtain ⟨pairs, rfl, hpairs⟩ := Json.exists_pairs fun i hi => ih i hi (hitems i hi)
    have hread := reads_arr (pairs.map fun p => (p.1.2, p.2)) hblank
      (List.forall_mem_map.mpr fun p hp => hfits p.1 (List.mem_map_of_mem hp))
      (List.forall_mem_map.mpr fun p hp => (h p.1 (List.mem_map_of_mem hp)).wellformed)
      (List.forall_mem_map.mpr fun p hp => (hpairs p hp).1)
    have hstands := Stands.arr (pairs.map fun p => (p.1.1, p.2))
      (List.forall_mem_map.mpr fun p hp => (hpairs p hp).2)
    simp only [List.map_map, Function.comp_def] at hread hstands ⊢
    exact ⟨_, hread, hstands⟩
  | obj blank members hblank hfits hform h ih =>
    have hmembers : ∀ m, Last (·.1.1) members m → m.1.2.Portable := by
      cases hj with
      | obj _ hmembers =>
        exact fun m hm => hmembers m.1 (Json.mem_sortMembers_iff.mpr (hm.map Prod.fst))
    obtain ⟨pairs, rfl, hpairs⟩ := Json.exists_pairs (P := fun m d => Reads m.2.text d ∧
      (Last (·.1.1) members m → Stands d m.1.2)) fun m hm => by
        by_cases hlast : Last (·.1.1) members m
        · obtain ⟨d, hd, hstands⟩ := ih m hlast (hmembers m hlast)
          exact ⟨d, hd, fun _ => hstands⟩
        · obtain ⟨d, hd⟩ := exists_reads (hform m hm)
          exact ⟨d, hd, fun h => absurd h hlast⟩
    have hread := reads_obj (pairs.map fun p => (p.1.2, (Utf16.ofString p.1.1.1, p.2)))
      hblank (List.forall_mem_map.mpr fun p hp => hfits p.1 (List.mem_map_of_mem hp))
      (List.forall_mem_map.mpr fun p hp => hform p.1 (List.mem_map_of_mem hp))
      (List.forall_mem_map.mpr fun p hp => (hpairs p hp).1)
    have hstands := Stands.obj (pairs.map fun p => (p.1.1, p.2)) fun m hm => by
      obtain ⟨p, hlast, rfl⟩ := Json.exists_last_of_map hm
      exact (hpairs p hlast.mem).2 (hlast.map Prod.fst)
    simp only [List.map_map, Function.comp_def] at hread hstands ⊢
    exact ⟨_, hread, hstands⟩

theorem length_le_ofChars (cs : List Char) : cs.length ≤ (ofChars cs).length := by
  induction cs with
  | nil => exact Nat.le_refl _
  | cons ch cs ih =>
    obtain ⟨u, us, hu, -⟩ := ofChar_begins ch
    rw [ofChars_cons, hu]
    simp only [List.length_cons, List.cons_append, List.length_append]
    omega

/-- The units of a file of a document are read as data that stand for it. -/
theorem parse?_of_contents {j : Json} (h : Json.Contents j cs) (hj : j.Portable) :
    ∃ d, parse? (ofChars cs) = some d ∧ Stands d j := by
  obtain ⟨front, text, back, hfront, htext, hback⟩ := h
  obtain ⟨d, hread, hstands⟩ := reads_of_tells htext hj
  have hends : Json.Cursor.EndsNumber back := by
    simpa using Json.Cursor.endsNumber_blank hback Json.endsNumber_nil
  have hlength := length_le_ofChars (front ++ text ++ back)
  simp only [List.length_append] at hlength
  have hspace : skipSpace (ofChars back) = [] := by
    have hnil := skipSpace_blank hback []
    rw [List.append_nil] at hnil
    exact hnil
  have hvalue := hread ((ofChars (front ++ text ++ back)).length + 1)
    (ofChars (front ++ text ++ back)) back
    (by rw [List.append_assoc, skipSpace_wellformed hfront htext.wellformed]) hends (by omega)
  refine ⟨d, ?_, hstands⟩
  simp only [parse?, hvalue, hspace, List.isEmpty_nil, if_true]

end LoadHook.Script.Document
