import LoadHook.Proofs.Json.Grammar
import LoadHook.Proofs.Json.Members
import Mathlib

/-!
# All texts of a document

A whole number may be written with a point and an exponent, and a member that is replaced by a later
one of its name may be any value at all, even one that is no document of whole numbers. `Tells`
takes in every text of a document, where `Writes` has those in which each value is written plainly.
-/
namespace LoadHook.Json

open Text (Utf16)

/-- An element of a list after which no other of its name comes. -/
def Last {α κ : Type} (name : α → κ) (l : List α) (a : α) : Prop :=
  ∃ front back, l = front ++ a :: back ∧ ∀ b ∈ back, name b ≠ name a

/-- The exponent of a number, with the power of ten that it stands for. -/
inductive Power : Int → List Char → Prop where
  | none : Power 0 []
  | up (mark : Char) (sign ds : List Char) (hmark : mark = 'e' ∨ mark = 'E')
      (hsign : sign = [] ∨ sign = ['+']) (h : Digits ds) :
      Power (Nat.ofDigitChars 10 ds 0) (mark :: (sign ++ ds))
  | down (mark : Char) (ds : List Char) (hmark : mark = 'e' ∨ mark = 'E') (h : Digits ds) :
      Power (-(Nat.ofDigitChars 10 ds 0)) (mark :: '-' :: ds)

/-- The ways to write a natural: digits with a point among them, times a power of ten. -/
inductive Amount (n : Nat) : List Char → Prop where
  | mk (whole fraction exponent : List Char) (e : Int) (hwhole : Digits whole)
      (hzero : whole.head? = some '0' → whole = ['0']) (hfraction : Fraction fraction)
      (hexponent : Power e exponent)
      (hvalue : (Nat.ofDigitChars 10 (whole ++ fraction.tail) 0 : ℚ) *
        10 ^ (e - fraction.tail.length) = n) :
      Amount n (whole ++ fraction ++ exponent)

/-- The texts of a document of whole numbers. Of members of one name the last one counts, and the
others may be anything. -/
inductive Tells : Json → List Char → Prop where
  | null : Tells .null ['n', 'u', 'l', 'l']
  | bool (b : Bool) :
      Tells (.bool b) (if b then ['t', 'r', 'u', 'e'] else ['f', 'a', 'l', 's', 'e'])
  | number {n : Nat} {text : List Char} (h : Amount n text) : Tells (.int n) text
  | negative {n : Nat} {text : List Char} (hn : n ≠ 0) (h : Amount n text) :
      Tells (.int (-n)) ('-' :: text)
  | str {s : String} {body : List Char} (h : Quotes (Utf16.ofString s) body) :
      Tells (.str s) ('"' :: (body ++ ['"']))
  | arr (blank : List Char) (items : List (Json × Entry)) (hblank : Blank blank)
      (hfits : ∀ i ∈ items, i.2.Fits none) (h : ∀ i ∈ items, Tells i.1 i.2.text) :
      Tells (.arr (items.map Prod.fst))
        ('[' :: (Entry.between blank (items.map Prod.snd) ++ [']']))
  | obj (blank : List Char) (members : List ((String × Json) × Entry)) (hblank : Blank blank)
      (hfits : ∀ m ∈ members, m.2.Fits (some (Utf16.ofString m.1.1)))
      (hform : ∀ m ∈ members, Wellformed m.2.text)
      (h : ∀ m, Last (·.1.1) members m → Tells m.1.2 m.2.text) :
      Tells (ofMembers (members.map Prod.fst))
        ('{' :: (Entry.between blank (members.map Prod.snd) ++ ['}']))

/-- A document that passes through doubles: they keep its whole numbers, and the lengths of its
arrays. -/
inductive Portable : Json → Prop where
  | null : Portable .null
  | bool (b : Bool) : Portable (.bool b)
  | int (n : Int) (hn : n.natAbs < 2 ^ 53) : Portable (.int n)
  | str (s : String) : Portable (.str s)
  | arr (items : List Json) (hlength : items.length < 2 ^ 53) (h : ∀ j ∈ items, Portable j) :
      Portable (.arr items)
  | obj (members : List (String × Json)) (h : ∀ m ∈ members, Portable m.2) :
      Portable (.obj members)

/-- What a file of a document holds: one of its texts, with white space around it. -/
inductive Contents (j : Json) : List Char → Prop where
  | mk (before text after : List Char) (hbefore : Blank before) (htext : Tells j text)
      (hafter : Blank after) : Contents j (before ++ text ++ after)

/-! ## The last of a name -/

section Last

variable {α κ : Type} {name : α → κ} {l : List α} {a b : α}

theorem Last.mem (h : Last name l a) : a ∈ l := by
  obtain ⟨front, back, rfl, -⟩ := h
  simp

theorem Last.cons (h : Last name l a) (b : α) : Last name (b :: l) a := by
  obtain ⟨front, back, rfl, hback⟩ := h
  exact ⟨b :: front, back, rfl, hback⟩

theorem last_cons_iff :
    Last name (b :: l) a ↔ Last name l a ∨ a = b ∧ ∀ c ∈ l, name c ≠ name b := by
  constructor
  · rintro ⟨front, back, he, hback⟩
    cases front with
    | nil =>
      cases he
      exact .inr ⟨rfl, hback⟩
    | cons c front =>
      cases he
      exact .inl ⟨front, back, rfl, hback⟩
  · rintro (h | ⟨rfl, h⟩)
    · exact h.cons b
    · exact ⟨[], l, rfl, h⟩

theorem Last.map {β : Type} {name : β → κ} (f : α → β) (h : Last (fun a => name (f a)) l a) :
    Last name (l.map f) (f a) := by
  obtain ⟨front, back, rfl, hback⟩ := h
  refine ⟨front.map f, back.map f, by simp, fun b hb => ?_⟩
  obtain ⟨c, hc, rfl⟩ := List.mem_map.mp hb
  exact hback c hc

/-- The last of its name in an image is the image of one. -/
theorem exists_last_of_map {β : Type} {name : β → κ} {f : α → β} {c : β}
    (h : Last name (l.map f) c) : ∃ a, Last (fun a => name (f a)) l a ∧ f a = c := by
  obtain ⟨front, back, he, hback⟩ := h
  obtain ⟨front, rest, rfl, rfl, hrest⟩ := List.map_eq_append_iff.mp he
  obtain ⟨a, back, rfl, rfl, rfl⟩ := List.map_eq_cons_iff.mp hrest
  exact ⟨a, ⟨front, back, rfl, fun c hc => hback (f c) (List.mem_map_of_mem hc)⟩, rfl⟩

theorem last_concat_iff :
    Last name (l ++ [b]) a ↔ a = b ∨ Last name l a ∧ name b ≠ name a := by
  constructor
  · rintro ⟨front, back, he, hback⟩
    rcases List.eq_nil_or_concat back with rfl | ⟨back, c, rfl⟩
    · exact .inl (List.append_singleton_inj.mp he).2.symm
    · have hsplit : l ++ [b] = (front ++ a :: back) ++ [c] := by simpa using he
      obtain ⟨rfl, rfl⟩ := List.append_singleton_inj.mp hsplit
      exact .inr ⟨⟨front, back, rfl, fun d hd => hback d (by simp [hd])⟩, hback b (by simp)⟩
  · rintro (rfl | ⟨⟨front, back, rfl, hback⟩, hne⟩)
    · exact ⟨l, [], rfl, by simp⟩
    · refine ⟨front, back ++ [b], by simp, fun c hc => ?_⟩
      rcases List.mem_append.mp hc with hc | hc
      · exact hback c hc
      · rwa [List.mem_singleton.mp hc]

/-- Where no two have one name each is the last of its name. -/
theorem last_iff_mem (h : (l.map name).Nodup) : Last name l a ↔ a ∈ l := by
  refine ⟨Last.mem, fun ha => ?_⟩
  obtain ⟨front, back, rfl⟩ := List.append_of_mem ha
  rw [List.map_append, List.map_cons] at h
  refine ⟨front, back, rfl, fun b hb he => ?_⟩
  exact (List.nodup_cons.mp (List.nodup_append.mp h).2.1).1 (he ▸ List.mem_map_of_mem hb)

section Lasts

variable [DecidableEq κ]

/-- Puts an element in the place of the one of its name, or at the end. -/
def putLast (name : α → κ) (a : α) : List α → List α
  | [] => [a]
  | b :: rest => if name b = name a then a :: rest else b :: putLast name a rest

/-- The last elements of their names, each where its name stood first. -/
def lasts (name : α → κ) (l : List α) : List α := l.foldl (fun all a => putLast name a all) []

theorem map_putLast (h : (l.map name).Nodup) :
    ((putLast name a l).map name).Nodup ∧ ∀ c, c ∈ putLast name a l ↔
      c = a ∨ c ∈ l ∧ name a ≠ name c := by
  induction l with
  | nil => simp [putLast]
  | cons b rest ih =>
    rw [List.map_cons, List.nodup_cons] at h
    obtain ⟨hnodup, hmem⟩ := ih h.2
    by_cases hb : name b = name a
    · have hrest : ∀ c ∈ rest, name a ≠ name c := fun c hc he =>
        h.1 (hb ▸ he ▸ List.mem_map_of_mem hc)
      simp only [putLast, hb, if_true, List.map_cons, List.nodup_cons]
      refine ⟨⟨hb ▸ h.1, h.2⟩, fun c => ?_⟩
      simp only [List.mem_cons]
      grind
    · simp only [putLast, hb, if_false, List.map_cons, List.nodup_cons]
      refine ⟨⟨fun hin => ?_, hnodup⟩, fun c => ?_⟩
      · obtain ⟨c, hc, he⟩ := List.mem_map.mp hin
        rcases (hmem c).mp hc with rfl | ⟨hc, -⟩
        · exact hb he.symm
        · exact h.1 (he ▸ List.mem_map_of_mem hc)
      · simp only [List.mem_cons, hmem]
        grind

theorem map_lasts (name : α → κ) (l : List α) :
    ((lasts name l).map name).Nodup ∧ ∀ a, a ∈ lasts name l ↔ Last name l a := by
  induction l using List.reverseRecOn with
  | nil => exact ⟨.nil, fun a => ⟨nofun, fun h => absurd h.mem (by simp)⟩⟩
  | append_singleton l b ih =>
    have hlasts : lasts name (l ++ [b]) = putLast name b (lasts name l) := by simp [lasts]
    obtain ⟨hnodup, hmem⟩ := map_putLast (a := b) ih.1
    rw [hlasts]
    refine ⟨hnodup, fun a => ?_⟩
    rw [hmem, last_concat_iff, ih.2]

end Lasts

/-- Things of the elements of a list, put beside them. -/
theorem exists_pairs {β : Type} {P : α → β → Prop} (h : ∀ a ∈ l, ∃ b, P a b) :
    ∃ pairs : List (α × β), pairs.map Prod.fst = l ∧ ∀ p ∈ pairs, P p.1 p.2 := by
  induction l with
  | nil => exact ⟨[], rfl, by simp⟩
  | cons a l ih =>
    obtain ⟨b, hb⟩ := h a List.mem_cons_self
    obtain ⟨pairs, rfl, hpairs⟩ := ih fun c hc => h c (List.mem_cons_of_mem a hc)
    exact ⟨(a, b) :: pairs, rfl, List.forall_mem_cons.mpr ⟨hb, hpairs⟩⟩

end Last

/-! ## Members that count -/

section Members

variable {α : Type} {members : List (String × α)} {key : String} {value : α}

theorem inOrder_sortMembers (members : List (String × α)) : InOrder (sortMembers members) :=
  inOrder_union (show InOrder ([] : List (String × α)) from .nil) members

/-- In an object there are the last members of their names. -/
theorem lookup_sortMembers : lookup key (sortMembers members) = some value ↔
    Last Prod.fst members (key, value) := by
  induction members using List.reverseRecOn with
  | nil =>
    constructor
    · nofun
    · exact fun h => absurd h.mem (by simp)
  | append_singleton members m ih =>
    have hsort : sortMembers (members ++ [m]) = insert m.1 m.2 (sortMembers members) := by
      simp [sortMembers]
    rw [hsort, lookup_insert, last_concat_iff, ← ih]
    by_cases hkey : key = m.1
    · simp [hkey, Prod.ext_iff, eq_comm]
    · simp [hkey, Prod.ext_iff, Ne.symm hkey]

/-- Only the last members of their names count. -/
theorem sortMembers_congr {more : List (String × α)}
    (h : ∀ m, Last Prod.fst members m ↔ Last Prod.fst more m) :
    sortMembers members = sortMembers more := by
  refine (inOrder_sortMembers members).ext (inOrder_sortMembers more) fun key => ?_
  refine Option.ext fun value => ?_
  rw [lookup_sortMembers, lookup_sortMembers, h]

theorem mem_sortMembers_iff {m : String × α} :
    m ∈ sortMembers members ↔ Last Prod.fst members m := by
  rw [← lookup_sortMembers]
  refine ⟨fun hm => ?_, mem_of_lookup⟩
  have h := inOrder_sortMembers members
  generalize sortMembers members = sorted at h hm
  induction sorted with
  | nil => cases hm
  | cons k rest ih =>
    obtain ⟨hfirst, hrest⟩ := List.pairwise_cons.mp h
    rw [lookup_cons]
    rcases List.mem_cons.mp hm with rfl | hm
    · rw [if_pos rfl]
    · rw [if_neg (fun he => String.lt_irrefl _ (he ▸ hfirst m hm)), ih hrest hm]

end Members

/-! ## Form -/

theorem Power.exponent {e : Int} {cs : List Char} (h : Power e cs) : Exponent cs := by
  cases h with
  | none => exact .none
  | up mark sign ds hmark hsign h =>
    exact .some mark sign ds hmark (hsign.imp_right .inl) h
  | down mark ds hmark h => exact .some mark ['-'] ds hmark (.inr (.inr rfl)) h

/-- Every exponent stands for a power of ten. -/
theorem Exponent.power {cs : List Char} (h : Exponent cs) : ∃ e, Power e cs := by
  cases h with
  | none => exact ⟨0, .none⟩
  | some mark sign ds hmark hsign h =>
    rcases hsign with rfl | rfl | rfl
    · exact ⟨_, .up mark [] ds hmark (.inl rfl) h⟩
    · exact ⟨_, .up mark ['+'] ds hmark (.inr rfl) h⟩
    · exact ⟨_, .down mark ds hmark h⟩

theorem Amount.magnitude {n : Nat} {text : List Char} (h : Amount n text) : Magnitude text := by
  obtain ⟨whole, fraction, exponent, e, hwhole, hzero, hfraction, hexponent, -⟩ := h
  exact .mk whole fraction exponent hwhole hzero hfraction hexponent.exponent

/-- A natural is written by its digits. -/
theorem amount_digitChars (n : Nat) : Amount n (Decimal.digitChars n) := by
  obtain ⟨hdigits, hzero⟩ := digits_digitChars n
  have hvalue : Nat.ofDigitChars 10 (Decimal.digitChars n) 0 = n := by
    simp [Decimal.digitChars]
  simpa using Amount.mk (Decimal.digitChars n) [] [] 0 hdigits hzero .none .none (by simp [hvalue])

/-- The texts of a document are well-formed. -/
theorem Tells.wellformed {j : Json} {text : List Char} (h : Tells j text) : Wellformed text := by
  induction h with
  | null => exact .null
  | bool b => exact .bool b
  | number h => exact .number h.magnitude
  | negative _ h => exact .negative h.magnitude
  | str h => exact .str h
  | arr blank items hblank hfits _ ih =>
    refine .arr blank _ hblank (List.forall_mem_map.mpr hfits) (List.forall_mem_map.mpr ih)
  | obj blank members hblank hfits hform _ _ =>
    exact .obj blank _ hblank (List.forall_mem_map.mpr fun m hm => ⟨_, hfits m hm⟩)
      (List.forall_mem_map.mpr hform)

/-- What is written plainly is told. -/
theorem Writes.tells {j : Json} {text : List Char} (h : Writes j text) : Tells j text := by
  induction h with
  | null => exact .null
  | bool b => exact .bool b
  | int n =>
    rw [Decimal.intChars]
    split
    · next hneg =>
      have htext := Tells.negative (by omega : n.natAbs ≠ 0) (amount_digitChars n.natAbs)
      rwa [show -(n.natAbs : Int) = n by omega] at htext
    · next hneg =>
      have htext := Tells.number (amount_digitChars n.natAbs)
      rwa [show (n.natAbs : Int) = n by omega] at htext
  | str h => exact .str h
  | arr blank items hblank hfits _ ih => exact .arr blank items hblank hfits ih
  | obj blank members hblank hfits h ih =>
    exact .obj blank members hblank hfits (fun m hm => (h m hm).wellformed)
      fun m hm => ih m hm.mem

/-! ## What no text holds -/

theorem Digits.nul_notMem {ds : List Char} (h : Digits ds) : '\x00' ∉ ds := fun hmem =>
  absurd (h.2 _ hmem) (by decide)

theorem Blank.nul_notMem {blank : List Char} (h : Blank blank) : '\x00' ∉ blank := fun hmem =>
  absurd (h _ hmem) (by decide)

theorem UnitDigits.nul_notMem {u : UInt16} {ds : List Char} (h : UnitDigits u ds) :
    '\x00' ∉ ds := by
  intro hmem
  have hlower := List.mem_map_of_mem (f := Char.toLower) hmem
  rw [h] at hlower
  obtain ⟨place, -, he⟩ := List.mem_map.mp hlower
  have hdigit : ∀ n < 16, Nat.digitChar n ≠ Char.toLower '\x00' := by decide
  exact hdigit _ (Nat.mod_lt _ (by decide)) he

theorem Quotes.nul_notMem {us : Utf16} {body : List Char} (h : Quotes us body) :
    '\x00' ∉ body := by
  induction h with
  | nil => simp
  | plain ch hch _ ih =>
    rw [List.mem_cons, not_or]
    refine ⟨?_, ih⟩
    rintro rfl
    exact absurd hch.1 (by decide)
  | short letter ch he _ ih =>
    have hletter : ∀ e ∈ shortEscapes, '\x00' ≠ e.1 := by decide
    simpa [ih] using hletter _ he
  | unit u ds hds _ ih => simp [hds.nul_notMem, ih]

theorem Magnitude.nul_notMem {text : List Char} (h : Magnitude text) : '\x00' ∉ text := by
  obtain ⟨whole, fraction, exponent, hwhole, -, hfraction, hexponent⟩ := h
  have hpoint : '\x00' ∉ fraction := by
    cases hfraction with
    | none => simp
    | some ds h => simpa using h.nul_notMem
  have hmark : '\x00' ∉ exponent := by
    cases hexponent with
    | none => simp
    | some mark sign ds hmark hsign h =>
      rcases hmark with rfl | rfl <;> rcases hsign with rfl | rfl | rfl <;> simpa using h.nul_notMem
  simp [hwhole.nul_notMem, hpoint, hmark]

namespace Entry

theorem Fits.nul_notMem {name : Option Utf16} {e : Entry} (h : e.Fits name)
    (htext : '\x00' ∉ e.text) : '\x00' ∉ e.chars := by
  obtain ⟨hhead, hbefore, hafter⟩ := h
  have hname : '\x00' ∉ e.head := by
    generalize e.head = head at hhead
    cases hhead with
    | item => simp
    | member hfront hname hback =>
      simp [hfront.nul_notMem, hname.nul_notMem, hback.nul_notMem]
  simp [chars, hname, hbefore.nul_notMem, htext, hafter.nul_notMem]

theorem nul_notMem_between {blank : List Char} {es : List Entry} (hblank : Blank blank)
    (h : ∀ e ∈ es, '\x00' ∉ e.chars) : '\x00' ∉ between blank es := by
  cases es with
  | nil => exact hblank.nul_notMem
  | cons e es =>
    obtain ⟨he, hes⟩ := List.forall_mem_cons.mp h
    simpa [between, he] using hes

end Entry

/-- No well-formed value holds a NUL: one in a string has to be escaped. -/
theorem Wellformed.nul_notMem {text : List Char} (h : Wellformed text) : '\x00' ∉ text := by
  induction h with
  | null => decide
  | bool b => cases b <;> decide
  | number h => exact h.nul_notMem
  | negative h => simpa using h.nul_notMem
  | str h => simpa using h.nul_notMem
  | arr blank items hblank hfits _ ih =>
    have hitems := Entry.nul_notMem_between hblank fun e he => (hfits e he).nul_notMem (ih e he)
    simpa using hitems
  | obj blank members hblank hfits _ ih =>
    have hmembers := Entry.nul_notMem_between hblank fun e he => by
      obtain ⟨name, hname⟩ := hfits e he
      exact hname.nul_notMem (ih e he)
    simpa using hmembers

theorem Contents.nul_notMem {j : Json} {cs : List Char} (h : Contents j cs) : '\x00' ∉ cs := by
  obtain ⟨before, text, after, hbefore, htext, hafter⟩ := h
  simp [hbefore.nul_notMem, htext.wellformed.nul_notMem, hafter.nul_notMem]

end LoadHook.Json
