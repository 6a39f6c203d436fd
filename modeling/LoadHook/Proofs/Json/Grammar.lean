import LoadHook.Proofs.Json.Reading
import LoadHook.Text.Utf16

/-!
# JSON text

The form of JSON text, whoever reads it. White space may stand between any two tokens, and a
string may hold escapes wherever it likes. That a text is a well-formed value is one thing, which
document it stands for is another: the same document has many texts, and a text need not stand for
any, since a string may hold half of a surrogate pair.
-/
namespace LoadHook.Json

open Text (Utf16)

/-! ## Strings -/

/-- White space between tokens. -/
def Blank (cs : List Char) : Prop := ∀ ch ∈ cs, ch ∈ [' ', '\n', '\t', '\r']

/-- The letters that make an escape of two characters, with the character each stands for. -/
def shortEscapes : List (Char × Char) :=
  [('"', '"'), ('\\', '\\'), ('/', '/'), ('b', '\x08'), ('f', '\x0c'), ('n', '\n'), ('r', '\r'),
   ('t', '\t')]

/-- The four hexadecimal digits of a unit, in either case. -/
def UnitDigits (u : UInt16) (ds : List Char) : Prop :=
  ds.map Char.toLower = [4096, 256, 16, 1].map fun place => hexDigit (u.toNat / place)

/-- The ways to write 16-bit units between quotes. -/
inductive Quotes : Utf16 → List Char → Prop where
  | nil : Quotes [] []
  | plain {us : Utf16} {body : List Char} (ch : Char)
      (hch : 0x20 ≤ ch.toNat ∧ ch ≠ '"' ∧ ch ≠ '\\') (h : Quotes us body) :
      Quotes (Utf16.ofChar ch ++ us) (ch :: body)
  | short {us : Utf16} {body : List Char} (letter ch : Char) (he : (letter, ch) ∈ shortEscapes)
      (h : Quotes us body) : Quotes (Utf16.ofChar ch ++ us) ('\\' :: letter :: body)
  | unit {us : Utf16} {body : List Char} (u : UInt16) (ds : List Char) (hds : UnitDigits u ds)
      (h : Quotes us body) : Quotes (u :: us) ('\\' :: 'u' :: (ds ++ body))

/-! ## Numbers -/

/-- Decimal digits, at least one. -/
def Digits (ds : List Char) : Prop := ds ≠ [] ∧ ∀ d ∈ ds, d.isDigit

/-- The fraction of a number, if it has one. -/
inductive Fraction : List Char → Prop where
  | none : Fraction []
  | some (ds : List Char) (h : Digits ds) : Fraction ('.' :: ds)

/-- The exponent of a number, if it has one. -/
inductive Exponent : List Char → Prop where
  | none : Exponent []
  | some (mark : Char) (sign ds : List Char) (hmark : mark = 'e' ∨ mark = 'E')
      (hsign : sign = [] ∨ sign = ['+'] ∨ sign = ['-']) (h : Digits ds) :
      Exponent (mark :: (sign ++ ds))

/-- A number but for its sign. There is no zero before other digits of the whole part. -/
inductive Magnitude : List Char → Prop where
  | mk (whole fraction exponent : List Char) (hwhole : Digits whole)
      (hzero : whole.head? = some '0' → whole = ['0']) (hfraction : Fraction fraction)
      (hexponent : Exponent exponent) : Magnitude (whole ++ fraction ++ exponent)

/-! ## Values -/

/-- An item of a list or a member of an object as it is written: before the value stands the name
with its colon, which an item has not. -/
structure Entry where
  head : List Char
  before : List Char
  text : List Char
  after : List Char

/-- What stands before a value: nothing, or a name with its colon. -/
inductive Head : Option Utf16 → List Char → Prop where
  | item : Head none []
  | member {name : Utf16} {front body back : List Char} (hfront : Blank front)
      (hname : Quotes name body) (hback : Blank back) :
      Head (some name) (front ++ '"' :: (body ++ '"' :: (back ++ [':'])))

namespace Entry

/-- The text of an entry. -/
def chars (e : Entry) : List Char := e.head ++ e.before ++ e.text ++ e.after

/-- An entry in good form, of this name if it has one, whatever its value. -/
structure Fits (name : Option Utf16) (e : Entry) : Prop where
  head : Head name e.head
  before : Blank e.before
  after : Blank e.after

/-- What stands between two brackets: the entries with commas between them, or white space. -/
def between (blank : List Char) : List Entry → List Char
  | [] => blank
  | e :: es => e.chars ++ es.flatMap fun e => ',' :: e.chars

end Entry

/-- A well-formed value. -/
inductive Wellformed : List Char → Prop where
  | null : Wellformed ['n', 'u', 'l', 'l']
  | bool (b : Bool) : Wellformed (if b then ['t', 'r', 'u', 'e'] else ['f', 'a', 'l', 's', 'e'])
  | number {text : List Char} (h : Magnitude text) : Wellformed text
  | negative {text : List Char} (h : Magnitude text) : Wellformed ('-' :: text)
  | str {us : Utf16} {body : List Char} (h : Quotes us body) : Wellformed ('"' :: (body ++ ['"']))
  | arr (blank : List Char) (items : List Entry) (hblank : Blank blank)
      (hfits : ∀ e ∈ items, e.Fits none) (h : ∀ e ∈ items, Wellformed e.text) :
      Wellformed ('[' :: (Entry.between blank items ++ [']']))
  | obj (blank : List Char) (members : List Entry) (hblank : Blank blank)
      (hfits : ∀ e ∈ members, ∃ name, e.Fits (some name)) (h : ∀ e ∈ members, Wellformed e.text) :
      Wellformed ('{' :: (Entry.between blank members ++ ['}']))

/-- The texts of a document of whole numbers. Of members of one name the last one counts. -/
inductive Writes : Json → List Char → Prop where
  | null : Writes .null ['n', 'u', 'l', 'l']
  | bool (b : Bool) :
      Writes (.bool b) (if b then ['t', 'r', 'u', 'e'] else ['f', 'a', 'l', 's', 'e'])
  | int (n : Int) : Writes (.int n) (Decimal.intChars n)
  | str {s : String} {body : List Char} (h : Quotes (Utf16.ofString s) body) :
      Writes (.str s) ('"' :: (body ++ ['"']))
  | arr (blank : List Char) (items : List (Json × Entry)) (hblank : Blank blank)
      (hfits : ∀ i ∈ items, i.2.Fits none) (h : ∀ i ∈ items, Writes i.1 i.2.text) :
      Writes (.arr (items.map Prod.fst))
        ('[' :: (Entry.between blank (items.map Prod.snd) ++ [']']))
  | obj (blank : List Char) (members : List ((String × Json) × Entry)) (hblank : Blank blank)
      (hfits : ∀ m ∈ members, m.2.Fits (some (Utf16.ofString m.1.1)))
      (h : ∀ m ∈ members, Writes m.1.2 m.2.text) :
      Writes (ofMembers (members.map Prod.fst))
        ('{' :: (Entry.between blank (members.map Prod.snd) ++ ['}']))

/-! ## Form and meaning -/

theorem blank_nil : Blank [] := nofun

theorem UnitDigits.length_eq {u : UInt16} {ds : List Char} (h : UnitDigits u ds) :
    ds.length = 4 := by
  simpa using congrArg List.length h

theorem Digits.cons {ds : List Char} (h : Digits ds) : ∃ d rest, ds = d :: rest ∧ d.isDigit := by
  obtain ⟨hne, hall⟩ := h
  cases ds with
  | nil => exact absurd rfl hne
  | cons d rest => exact ⟨d, rest, rfl, hall d List.mem_cons_self⟩

theorem Magnitude.cons {text : List Char} (h : Magnitude text) :
    ∃ d rest, text = d :: rest ∧ d.isDigit := by
  obtain ⟨whole, fraction, exponent, hwhole, -, -, -⟩ := h
  obtain ⟨d, rest, rfl, hd⟩ := hwhole.cons
  exact ⟨d, rest ++ fraction ++ exponent, rfl, hd⟩

/-- A value begins neither with white space nor with the end of a list. -/
theorem Wellformed.cons {text : List Char} (h : Wellformed text) :
    ∃ ch rest, text = ch :: rest ∧ Cursor.isSpace ch = false ∧ ch ≠ ']' := by
  cases h with
  | number h =>
    obtain ⟨d, rest, rfl, hd⟩ := h.cons
    exact ⟨d, rest, rfl, isSpace_digit hd, isDigit_ne hd (by decide)⟩
  | bool b => cases b <;> exact ⟨_, _, rfl, by decide, by decide⟩
  | _ => exact ⟨_, _, rfl, by decide, by decide⟩

theorem digits_digitChars (n : Nat) : Digits (Decimal.digitChars n) ∧
    ((Decimal.digitChars n).head? = some '0' → Decimal.digitChars n = ['0']) := by
  refine ⟨⟨Nat.toDigits_ne_nil, fun d hd => ?_⟩, fun h => ?_⟩
  · exact Nat.isDigit_of_mem_toDigits (by decide) (by decide) hd
  · rcases Nat.eq_zero_or_pos n with rfl | hpos
    · rfl
    · exact absurd h (Cursor.head?_toDigits_ne hpos)

theorem magnitude_digitChars (n : Nat) : Magnitude (Decimal.digitChars n) := by
  obtain ⟨hdigits, hzero⟩ := digits_digitChars n
  simpa using Magnitude.mk _ _ _ hdigits hzero .none .none

/-- The texts of a document are well-formed. -/
theorem Writes.wellformed {j : Json} {text : List Char} (h : Writes j text) : Wellformed text := by
  induction h with
  | null => exact .null
  | bool b => exact .bool b
  | int n =>
    rw [Decimal.intChars]
    split
    · exact .negative (magnitude_digitChars _)
    · exact .number (magnitude_digitChars _)
  | str h => exact .str h
  | arr blank items hblank hfits h ih =>
    refine .arr blank _ hblank (fun e he => ?_) fun e he => ?_
    · obtain ⟨i, hi, rfl⟩ := List.mem_map.mp he
      exact hfits i hi
    · obtain ⟨i, hi, rfl⟩ := List.mem_map.mp he
      exact ih i hi
  | obj blank members hblank hfits h ih =>
    refine .obj blank _ hblank (fun e he => ?_) fun e he => ?_
    · obtain ⟨m, hm, rfl⟩ := List.mem_map.mp he
      exact ⟨_, hfits m hm⟩
    · obtain ⟨m, hm, rfl⟩ := List.mem_map.mp he
      exact ih m hm

/-! ## The compact text -/

/-- Digits in lower case are left as they are. -/
theorem toLower_hexDigit (n : Nat) : (hexDigit n).toLower = hexDigit n := by
  have hall : ∀ m < 16, (Nat.digitChar m).toLower = Nat.digitChar m := by decide
  exact hall (n % 16) (Nat.mod_lt n (by decide))

/-- The compact text of a control character is its unit in four digits. -/
theorem unitDigits_control {ch : Char} (hch : ch.toNat < 0x20) :
    UnitDigits ch.toNat.toUInt16 ['0', '0', hexDigit (ch.toNat / 16), hexDigit ch.toNat] := by
  have hunit : ch.toNat.toUInt16.toNat = ch.toNat := Nat.mod_eq_of_lt (by omega)
  have hfirst : ch.toNat / 4096 = 0 := by omega
  have hsecond : ch.toNat / 256 = 0 := by omega
  simp only [UnitDigits, List.map_cons, List.map_nil, hunit, toLower_hexDigit, hfirst, hsecond,
    Nat.div_one]
  rfl

theorem escapeChar_eq_self {ch : Char} (hch : 0x20 ≤ ch.toNat ∧ ch ≠ '"' ∧ ch ≠ '\\') :
    escapeChar ch = [ch] := by
  obtain ⟨hprint, hquote, hslash⟩ := hch
  have hne : ∀ d : Char, d.toNat < 0x20 → ch ≠ d := by
    rintro d hd rfl
    omega
  rw [escapeChar, if_neg hquote, if_neg hslash, if_neg (hne _ (by decide)),
    if_neg (hne _ (by decide)), if_neg (hne _ (by decide)), if_neg (hne _ (by decide)),
    if_neg (hne _ (by decide)), if_neg (by omega)]

theorem length_escapeChar_le (ch : Char) : (escapeChar ch).length ≤ 6 := by
  unfold escapeChar
  repeat' split
  all_goals simp

theorem quotes_escapeChar {us : Utf16} {body : List Char} (ch : Char) (h : Quotes us body) :
    Quotes (Utf16.ofChar ch ++ us) (escapeChar ch ++ body) := by
  have hshort : ∀ letter, (letter, ch) ∈ shortEscapes → escapeChar ch = ['\\', letter] →
      Quotes (Utf16.ofChar ch ++ us) (escapeChar ch ++ body) := by
    intro letter hletter hch
    rw [hch]
    exact .short letter ch hletter h
  by_cases hmem : ch ∈ ['"', '\\', '\n', '\r', '\t', '\x08', '\x0c']
  · have hletter : ∀ d ∈ ['"', '\\', '\n', '\r', '\t', '\x08', '\x0c'],
        ∃ letter, (letter, d) ∈ shortEscapes ∧ escapeChar d = ['\\', letter] := by
      simp [shortEscapes, escapeChar]
    obtain ⟨letter, hmem, hch⟩ := hletter ch hmem
    exact hshort letter hmem hch
  · simp only [List.mem_cons, List.not_mem_nil, or_false, not_or] at hmem
    obtain ⟨hquote, hslash, hn, hr, ht, hb, hf⟩ := hmem
    rw [escapeChar, if_neg hquote, if_neg hslash, if_neg hn, if_neg hr, if_neg ht, if_neg hb,
      if_neg hf]
    split
    · next hcontrol =>
      have hunit : Utf16.ofChar ch = [ch.toNat.toUInt16] := by
        rw [Utf16.ofChar, if_pos (by omega)]
      rw [hunit]
      exact .unit _ _ (unitDigits_control hcontrol) h
    · next hcontrol => exact .plain ch ⟨by omega, hquote, hslash⟩ h

theorem quotes_flatMap_escapeChar (cs : List Char) :
    Quotes (Utf16.ofChars cs) (cs.flatMap escapeChar) := by
  induction cs with
  | nil => exact .nil
  | cons ch cs ih => exact quotes_escapeChar ch ih

namespace Entry

/-- A text as an item without white space. -/
def bare (text : List Char) : Entry := ⟨[], [], text, []⟩

/-- A text as a member without white space. -/
def named (name : String) (text : List Char) : Entry := ⟨quote name.toList ++ [':'], [], text, []⟩

theorem fits_bare (text : List Char) : (bare text).Fits none := ⟨.item, blank_nil, blank_nil⟩

theorem fits_named (name : String) (text : List Char) :
    (named name text).Fits (some (Utf16.ofString name)) := by
  refine ⟨?_, blank_nil, blank_nil⟩
  have h := Head.member blank_nil (quotes_flatMap_escapeChar name.toList) blank_nil
  simpa [named, quote, Utf16.ofString] using h

/-- An item without white space. -/
def ofItem (j : Json) : Entry := bare j.chars

/-- A member without white space. -/
def ofMember (m : String × Json) : Entry := named m.1 m.2.chars

theorem itemChars_eq (items : List Json) :
    itemChars items = between [] (items.map ofItem) ++ [']'] := by
  induction items with
  | nil => rfl
  | cons j rest ih =>
    cases rest with
    | nil => simp [itemChars, between, ofItem, bare, chars]
    | cons k rest =>
      rw [itemChars, ih]
      simp [between, ofItem, bare, chars]

theorem memberChars_eq (members : List (String × Json)) :
    memberChars members = between [] (members.map ofMember) ++ ['}'] := by
  induction members with
  | nil => rfl
  | cons m rest ih =>
    cases rest with
    | nil => simp [memberChars, between, ofMember, named, chars]
    | cons k rest =>
      rw [memberChars, ih]
      simp [between, ofMember, named, chars]

end Entry

/-- The compact text of a document is one of its texts. -/
theorem Exact.writes {j : Json} (h : Exact j) : Writes j j.chars := by
  induction h with
  | null => exact .null
  | bool b => cases b <;> exact .bool _
  | int n low high => exact .int n
  | str s => exact .str (quotes_flatMap_escapeChar s.toList)
  | arr items exact ih =>
    have hwrites := Writes.arr [] (items.map fun j => (j, Entry.ofItem j)) blank_nil
      (List.forall_mem_map.mpr fun j _ => Entry.fits_bare j.chars) (List.forall_mem_map.mpr ih)
    rw [chars, Entry.itemChars_eq]
    simpa [Function.comp_def] using hwrites
  | obj members sorted exact ih =>
    have hwrites := Writes.obj [] (members.map fun m => (m, Entry.ofMember m)) blank_nil
      (List.forall_mem_map.mpr fun m _ => Entry.fits_named m.1 m.2.chars)
      (List.forall_mem_map.mpr ih)
    rw [chars, Entry.memberChars_eq]
    simpa [Function.comp_def, ofMembers, sortMembers_sorted sorted] using hwrites

end LoadHook.Json
