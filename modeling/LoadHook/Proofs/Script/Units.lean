import LoadHook.Proofs.Json.Quoting
import LoadHook.Proofs.Script.Numeral
import LoadHook.Script.Document.Reader

/-!
# Strings and numbers in units

A text goes to a script in 16-bit units. There a string is read as the units that it writes, and a
number as the double that it is nearest to, as far as each of them goes.
-/
namespace LoadHook.Script.Document

open Text (Utf16)
open Text.Utf16 (ofChar ofChars)
open Json (Blank Digits Fraction Exponent Magnitude Quotes UnitDigits)
open Numeric (minus)

variable {cs ds rest text : List Char} {us vs : Utf16} {u : UInt16} {ch : Char}

/-! ## Units of characters -/

@[simp] theorem ofChars_nil : ofChars [] = [] := rfl

@[simp] theorem ofChars_append (cs rest : List Char) :
    ofChars (cs ++ rest) = ofChars cs ++ ofChars rest := List.flatMap_append

theorem ofChars_cons (ch : Char) (cs : List Char) : ofChars (ch :: cs) = ofChar ch ++ ofChars cs :=
  List.flatMap_cons

/-- The units of a character begin with its code point, or with the first half of a pair. -/
theorem ofChar_begins (ch : Char) : ∃ u us, ofChar ch = u :: us ∧
    (u.toNat = ch.toNat ∨ 0xD800 ≤ u.toNat ∧ 0x80 ≤ ch.toNat) := by
  rw [ofChar]
  by_cases hch : ch.toNat < 0x10000
  · exact ⟨_, _, if_pos hch, .inl (Text.Utf16.toNat_unit hch)⟩
  · have hvalid : ch.toNat < 0xD800 ∨ 0xDFFF < ch.toNat ∧ ch.toNat < 0x110000 := ch.valid
    refine ⟨_, _, if_neg hch, .inr ⟨?_, by omega⟩⟩
    rw [Text.Utf16.toNat_unit (by omega)]
    omega

/-- A character of the basic plane is one unit. -/
theorem ofChars_cons_of_lt (hch : ch.toNat < 0x80) (cs : List Char) :
    ofChars (ch :: cs) = ch.toNat.toUInt16 :: ofChars cs := by
  rw [ofChars_cons, ofChar, if_pos (by omega), List.singleton_append]

/-- A property of the next unit that is one of the next character. -/
theorem head_ofChars {p : UInt16 → Prop} (hbig : ∀ u : UInt16, 0xD800 ≤ u.toNat → p u)
    (h : ∀ ch ∈ cs.head?, ∀ u : UInt16, u.toNat = ch.toNat → p u) :
    ∀ u ∈ (ofChars cs).head?, p u := by
  intro u hu
  cases cs with
  | nil => cases hu
  | cons ch cs =>
    obtain ⟨v, vs, hv, hunit⟩ := ofChar_begins ch
    rw [ofChars_cons, hv] at hu
    obtain rfl : v = u := by simpa using hu
    exact hunit.elim (h ch rfl v) fun hlead => hbig v hlead.1

theorem isDigit_iff : isDigit u ↔ 48 ≤ u.toNat ∧ u.toNat ≤ 57 := by
  simp [isDigit, UInt16.le_iff_toNat_le]

theorem toNat_of_isDigit (h : ch.isDigit) : 48 ≤ ch.toNat ∧ ch.toNat ≤ 57 := by
  simp only [Char.isDigit, Bool.and_eq_true, decide_eq_true_eq, UInt32.le_iff_toNat_le] at h
  exact h

theorem isDigit_ofChars (hds : ∀ d ∈ ds, d.isDigit) : ∀ u ∈ ofChars ds, isDigit u := by
  intro u hu
  obtain ⟨d, hd, hu⟩ := List.mem_flatMap.mp hu
  have hrange := toNat_of_isDigit (hds d hd)
  rw [ofChar, if_pos (by omega), List.mem_singleton] at hu
  rw [hu, isDigit_iff, Text.Utf16.toNat_unit (by omega)]
  exact hrange

/-! ## White space -/

theorem isSpace_ofChars (h : Blank cs) : ∀ u ∈ ofChars cs, isSpace u := by
  intro u hu
  obtain ⟨ch, hch, hu⟩ := List.mem_flatMap.mp hu
  have hmem := h ch hch
  simp only [List.mem_cons, List.not_mem_nil, or_false] at hmem
  rcases hmem with rfl | rfl | rfl | rfl <;>
  · cases hu with
    | head => decide
    | tail _ hu => cases hu

/-- White space is passed up to the next token. -/
theorem skipSpace_blank (h : Blank cs) (us : Utf16) :
    skipSpace (ofChars cs ++ us) = skipSpace us :=
  List.dropWhile_append_of_pos (isSpace_ofChars h)

theorem skipSpace_cons (hu : isSpace u = false) : skipSpace (u :: us) = u :: us :=
  List.dropWhile_cons_of_neg (by simp [hu])

/-! ## Strings -/

/-- Units put in front of what is read. -/
def before (vs : Utf16) (r : Utf16 × Utf16) : Utf16 × Utf16 := (vs ++ r.1, r.2)

theorem text?_quote (us : Utf16) : text? (34 :: us) = some ([], us) := by
  rw [text?]

theorem text?_plain (hcontrol : 32 ≤ u.toNat) (hquote : u ≠ 34) (hslash : u ≠ 92) (us : Utf16) :
    text? (u :: us) = (text? us).map (before [u]) := by
  have hlt : ¬ u < 32 := by
    rw [UInt16.lt_iff_toNat_lt]
    exact Nat.not_lt.mpr hcontrol
  rw [text?.eq_def]
  split
  · contradiction
  · next h => exact absurd (List.cons.inj h).1 hquote
  · next h => exact absurd (List.cons.inj h).1 hslash
  · next h => exact absurd (List.cons.inj h).1 hslash
  · next h =>
    cases h
    simp [hlt, hslash]
    cases text? us <;> rfl

theorem text?_short {v : UInt16} (hu : u ≠ 117) (hv : escaped? u = some v) (us : Utf16) :
    text? (92 :: u :: us) = (text? us).map (before [v]) := by
  rw [text?.eq_def]
  split
  · contradiction
  · next h => cases h
  · next h => exact absurd (List.cons.inj (List.cons.inj h).2).1 hu
  · next h =>
    cases h
    simp [hv]
    cases text? us <;> rfl
  · next hno h =>
    cases h
    exact (hno _ _ rfl rfl).elim

theorem text?_unit {a b c d : UInt16} {i j k l : Nat} (ha : hexDigit? a = some i)
    (hb : hexDigit? b = some j) (hc : hexDigit? c = some k) (hd : hexDigit? d = some l)
    (hu : ((i * 16 + j) * 16 + k) * 16 + l = u.toNat) (us : Utf16) :
    text? (92 :: 117 :: a :: b :: c :: d :: us) = (text? us).map (before [u]) := by
  have hunit : (((i * 16 + j) * 16 + k) * 16 + l).toUInt16 = u := by
    rw [hu]
    exact UInt16.ofNat_toNat
  rw [text?]
  simp only [ha, hb, hc, hd, Option.bind_eq_bind, Option.bind_some, hunit]
  cases text? us <;> rfl

/-- A hexadecimal digit has its value in units too. -/
theorem hexDigit?_unit (ch : Char) (n : Nat) (h : Json.Cursor.hexValue ch = some n) :
    ch.toNat < 0x80 ∧ hexDigit? ch.toNat.toUInt16 = some n := by
  have hsmall : ch.toNat < 0x80 := by
    unfold Json.Cursor.hexValue at h
    grind
  refine ⟨hsmall, ?_⟩
  have hall : ∀ m < 0x80, hexDigit? m.toUInt16 = Json.Cursor.hexValue (Char.ofNat m) := by decide
  rw [hall _ hsmall, Char.ofNat_toNat, h]

/-- The four digits of a unit are read as the unit. -/
theorem text?_unitDigits (hds : UnitDigits u ds) (us : Utf16) :
    text? (92 :: 117 :: (ofChars ds ++ us)) = (text? us).map (before [u]) := by
  obtain ⟨a, b, c, d, rfl, hvalue⟩ := Json.Cursor.hexNumber_of_unitDigits hds
  simp only [Json.Cursor.hexNumber, List.foldl_cons, List.foldl_nil] at hvalue
  cases ha : Json.Cursor.hexValue a <;> cases hb : Json.Cursor.hexValue b <;>
    cases hc : Json.Cursor.hexValue c <;> cases hd : Json.Cursor.hexValue d <;>
    simp [ha, hb, hc, hd] at hvalue
  obtain ⟨ha', ha⟩ := hexDigit?_unit a _ ha
  obtain ⟨hb', hb⟩ := hexDigit?_unit b _ hb
  obtain ⟨hc', hc⟩ := hexDigit?_unit c _ hc
  obtain ⟨hd', hd⟩ := hexDigit?_unit d _ hd
  rw [ofChars_cons_of_lt ha', ofChars_cons_of_lt hb', ofChars_cons_of_lt hc',
    ofChars_cons_of_lt hd']
  exact text?_unit ha hb hc hd hvalue us

theorem escaped?_of_mem {letter : Char} (h : (letter, ch) ∈ Json.shortEscapes) :
    ∃ u v, ofChar letter = [u] ∧ ofChar ch = [v] ∧ u ≠ 117 ∧ escaped? u = some v := by
  have hall : ∀ e ∈ Json.shortEscapes, ofChar e.1 = [e.1.toNat.toUInt16] ∧
      ofChar e.2 = [e.2.toNat.toUInt16] ∧ e.1.toNat.toUInt16 ≠ 117 ∧
      escaped? e.1.toNat.toUInt16 = some e.2.toNat.toUInt16 := by decide
  exact ⟨_, _, hall _ h⟩

/-- A character that stands for itself is read as its units. -/
theorem text?_ofChar (hch : 0x20 ≤ ch.toNat ∧ ch ≠ '"' ∧ ch ≠ '\\') (us : Utf16) :
    text? (ofChar ch ++ us) = (text? us).map (before (ofChar ch)) := by
  obtain ⟨hcontrol, hquote, hslash⟩ := hch
  by_cases hsmall : ch.toNat < 0x10000
  · have hunit : ch.toNat.toUInt16.toNat = ch.toNat := Text.Utf16.toNat_unit hsmall
    have hne : ∀ d : Char, d.toNat < 0x10000 → ch ≠ d → ch.toNat.toUInt16 ≠ d.toNat.toUInt16 := by
      intro d hd hne he
      have := congrArg UInt16.toNat he
      rw [hunit, Text.Utf16.toNat_unit hd] at this
      exact hne (Char.toNat_inj.mp this)
    rw [ofChar, if_pos hsmall, List.singleton_append]
    exact text?_plain (by omega) (hne '"' (by decide) hquote) (hne '\\' (by decide) hslash) us
  · obtain ⟨u, v, huv, hlead, htrail, -⟩ := Text.Utf16.ofChar_of_ge (Nat.not_lt.mp hsmall)
    rw [Text.Utf16.isLead_iff] at hlead
    rw [Text.Utf16.isTrail_iff] at htrail
    have hne : ∀ w x : UInt16, 0xD800 ≤ w.toNat → x.toNat < 0xD800 → w ≠ x := by
      rintro w x hw hx rfl
      omega
    rw [huv, List.cons_append, List.singleton_append,
      text?_plain (by omega) (hne _ _ (by omega) (by decide)) (hne _ _ (by omega) (by decide)),
      text?_plain (by omega) (hne _ _ (by omega) (by decide)) (hne _ _ (by omega) (by decide)),
      Option.map_map]
    rfl

/-- A string is read as the units that it writes. -/
theorem text?_eq {body : List Char} (h : Quotes us body) (rest : Utf16) :
    text? (ofChars body ++ 34 :: rest) = some (us, rest) := by
  induction h with
  | nil => exact text?_quote rest
  | plain ch hch h ih =>
    rw [ofChars_cons, List.append_assoc, text?_ofChar hch, ih]
    rfl
  | short letter ch he h ih =>
    obtain ⟨u, v, hu, hv, hne, hescaped⟩ := escaped?_of_mem he
    have hslash : ofChar '\\' = [92] := rfl
    rw [ofChars_cons, ofChars_cons, hslash, hu, hv]
    simp only [List.cons_append, List.nil_append]
    rw [text?_short hne hescaped, ih]
    rfl
  | unit u ds hds h ih =>
    have hmark : ofChar '\\' = [92] ∧ ofChar 'u' = [117] := ⟨rfl, rfl⟩
    rw [ofChars_cons, ofChars_cons, hmark.1, hmark.2, ofChars_append]
    simp only [List.append_assoc, List.cons_append, List.nil_append]
    rw [text?_unitDigits hds, ih]
    rfl

/-! ## Numbers -/

theorem not_isDigit_head (hrest : ∀ ch ∈ rest.head?, ch.isDigit = false) :
    ∀ u ∈ (ofChars rest).head?, isDigit u = false := by
  refine head_ofChars (p := fun u => isDigit u = false) (fun u hu => ?_) fun ch hch u hu => ?_
  · rw [Bool.eq_false_iff, ne_eq, isDigit_iff]
    omega
  · have hch := hrest ch hch
    simp only [Char.isDigit, Bool.and_eq_false_iff, decide_eq_false_iff_not,
      UInt32.le_iff_toNat_le] at hch
    rw [Bool.eq_false_iff, ne_eq, isDigit_iff, hu]
    change ¬ 48 ≤ ch.toNat ∨ ¬ ch.toNat ≤ 57 at hch
    omega

/-- A unit that is no ASCII character begins none. -/
theorem head_ne (rest : List Char) (d : Char) (hd : d.toNat < 0x80)
    (hrest : ∀ ch ∈ rest.head?, ch ≠ d) :
    ∀ u ∈ (ofChars rest).head?, u ≠ d.toNat.toUInt16 := by
  have hunit : d.toNat.toUInt16.toNat = d.toNat := Text.Utf16.toNat_unit (by omega)
  refine head_ofChars (p := fun u => u ≠ d.toNat.toUInt16) (fun u hu he => ?_)
    fun ch hch u hu he => ?_
  · rw [he, hunit] at hu
    omega
  · rw [he, hunit] at hu
    exact hrest ch hch (Char.toNat_inj.mp hu.symm)

theorem digits?_eq (hds : Digits ds) (hrest : ∀ ch ∈ rest.head?, ch.isDigit = false) :
    digits? (ofChars (ds ++ rest)) = some (ofChars ds, ofChars rest) := by
  obtain ⟨htake, hdrop⟩ := Numeric.takeWhile_digits (isDigit_ofChars hds.2) (not_isDigit_head hrest)
  obtain ⟨d, tail, rfl, hd⟩ := hds.cons
  obtain ⟨u, us, hu, -⟩ := ofChar_begins d
  have hne : (ofChars (d :: tail)).isEmpty = false := by rw [ofChars_cons, hu]; rfl
  rw [digits?, ofChars_append, htake, hdrop]
  simp only [hne, Bool.false_eq_true, if_false]

theorem whole?_eq (hds : Digits ds) (hzero : ds.head? = some '0' → ds = ['0'])
    (hrest : ∀ ch ∈ rest.head?, ch.isDigit = false) :
    whole? (ofChars (ds ++ rest)) = some (ofChars ds, ofChars rest) := by
  rw [← digits?_eq hds hrest]
  obtain ⟨d, tail, rfl, hd⟩ := hds.cons
  by_cases hd0 : d = '0'
  · obtain rfl : tail = [] := by simpa [hd0] using hzero (by simp [hd0])
    rw [digits?_eq hds hrest, hd0]
    rfl
  · have hhead := head_ne (d :: tail ++ rest) '0' (by decide) (by simpa using hd0)
    rw [whole?.eq_def]
    split
    · next h => exact absurd rfl (hhead 48 (by rw [h]; rfl))
    · rfl

theorem places?_eq {fraction : List Char} (h : Fraction fraction)
    (hrest : ∀ ch ∈ rest.head?, ch.isDigit = false ∧ ch ≠ '.') :
    places? (ofChars (fraction ++ rest)) = some (ofChars fraction, ofChars rest) := by
  cases h with
  | none =>
    have hhead := head_ne _ '.' (by decide) fun ch hch => (hrest ch hch).2
    rw [List.nil_append, places?.eq_def]
    split
    · next h => exact absurd rfl (hhead 46 (by rw [h]; rfl))
    · rfl
  | some ds hds =>
    have hpoint : ofChars ('.' :: ds ++ rest) = 46 :: ofChars (ds ++ rest) := rfl
    rw [hpoint, places?, digits?_eq hds fun ch hch => (hrest ch hch).1]
    rfl

/-- Behind the mark of an exponent a sign and digits are read. -/
theorem exponent?_mark {e : UInt16} {sign : List Char} (he : (e == 101 || e == 69) = true)
    (hsign : sign = [] ∨ sign = ['+'] ∨ sign = ['-']) (hds : Digits ds)
    (hrest : ∀ ch ∈ rest.head?, ch.isDigit = false) :
    exponent? (e :: ofChars (sign ++ (ds ++ rest))) =
      some (e :: ofChars (sign ++ ds), ofChars rest) := by
  have hread := digits?_eq hds hrest
  simp only [exponent?, he, if_true]
  rcases hsign with rfl | rfl | rfl
  · obtain ⟨d, tail, rfl, hd⟩ := hds.cons
    have hrange := toNat_of_isDigit hd
    have hunit : d.toNat.toUInt16.toNat = d.toNat := Text.Utf16.toNat_unit (by omega)
    have hnot : (d.toNat.toUInt16 == 43 || d.toNat.toUInt16 == 45) = false := by
      rw [Bool.or_eq_false_iff, beq_eq_false_iff_ne, beq_eq_false_iff_ne, ne_eq, ne_eq,
        ← UInt16.toNat_inj, ← UInt16.toNat_inj, hunit]
      change d.toNat ≠ 43 ∧ d.toNat ≠ 45
      omega
    have hfirst : ofChars (d :: tail ++ rest) = d.toNat.toUInt16 :: ofChars (tail ++ rest) :=
      ofChars_cons_of_lt (by omega) _
    rw [hfirst] at hread
    simp only [List.nil_append, hfirst, hnot, Bool.false_eq_true, if_false, hread,
      Option.map_some]
    rfl
  · have hfirst : ofChars (['+'] ++ (ds ++ rest)) = 43 :: ofChars (ds ++ rest) := rfl
    have hsign : ((43 : UInt16) == 43 || (43 : UInt16) == 45) = true := rfl
    simp only [hfirst, hsign, if_true, hread, Option.map_some]
    rfl
  · have hfirst : ofChars (['-'] ++ (ds ++ rest)) = 45 :: ofChars (ds ++ rest) := rfl
    have hsign : ((45 : UInt16) == 43 || (45 : UInt16) == 45) = true := rfl
    simp only [hfirst, hsign, if_true, hread, Option.map_some]
    rfl

theorem exponent?_eq {exponent : List Char} (h : Exponent exponent)
    (hrest : Json.Cursor.EndsNumber rest) :
    exponent? (ofChars (exponent ++ rest)) = some (ofChars exponent, ofChars rest) := by
  have hdigit : ∀ ch ∈ rest.head?, ch.isDigit = false := fun ch hch => (hrest ch hch).1
  cases h with
  | none =>
    have he := head_ne _ 'e' (by decide) fun ch hch => (hrest ch hch).2.2.1
    have hE := head_ne _ 'E' (by decide) fun ch hch => (hrest ch hch).2.2.2
    rw [List.nil_append, exponent?.eq_def]
    split
    · next h => rw [h]; rfl
    · next u us h =>
      have hnot : (u == 101 || u == 69) = false := by
        simpa using ⟨he u (by rw [h]; rfl), hE u (by rw [h]; rfl)⟩
      rw [hnot, h]
      rfl
  | some mark sign ds hmark hsign hds =>
    rw [List.cons_append, List.append_assoc]
    rcases hmark with rfl | rfl
    · exact exponent?_mark rfl hsign hds hdigit
    · exact exponent?_mark rfl hsign hds hdigit

/-- Characters below 128 are found in their units. -/
theorem map_ofChars (h : ∀ ch ∈ cs, ch.toNat < 0x80) :
    (ofChars cs).map (fun u => Char.ofNat u.toNat) = cs := by
  induction cs with
  | nil => rfl
  | cons ch cs ih =>
    have hch := h ch List.mem_cons_self
    rw [ofChars_cons_of_lt hch, List.map_cons, ih fun d hd => h d (List.mem_cons_of_mem ch hd),
      Text.Utf16.toNat_unit (by omega), Char.ofNat_toNat]

theorem lt_of_digits (hds : ∀ d ∈ ds, d.isDigit) : ∀ ch ∈ ds, ch.toNat < 0x80 := by
  intro ch hch
  have := toNat_of_isDigit (hds ch hch)
  omega

theorem lt_of_fraction {fraction : List Char} (h : Fraction fraction) :
    ∀ ch ∈ fraction, ch.toNat < 0x80 := by
  cases h with
  | none => simp
  | some ds hds => exact List.forall_mem_cons.mpr ⟨by decide, lt_of_digits hds.2⟩

theorem lt_of_exponent {exponent : List Char} (h : Exponent exponent) :
    ∀ ch ∈ exponent, ch.toNat < 0x80 := by
  cases h with
  | none => simp
  | some mark sign ds hmark hsign hds =>
    refine List.forall_mem_cons.mpr ⟨?_, List.forall_mem_append.mpr ⟨?_, lt_of_digits hds.2⟩⟩
    · rcases hmark with rfl | rfl <;> decide
    · rcases hsign with rfl | rfl | rfl <;> simp

/-- A number is read as the double that it is nearest to, whatever its text. -/
theorem number?_eq (negative : Bool) (h : Magnitude text) (hrest : Json.Cursor.EndsNumber rest) :
    number? (ofChars (minus negative ++ (text ++ rest))) =
      (Numeric.decimalAt (minus negative ++ text)).map fun r => (r.1, ofChars rest) := by
  obtain ⟨whole, fraction, exponent, hwhole, hzero, hfraction, hexponent⟩ := h
  have hends : ∀ ch ∈ (exponent ++ rest).head?, ch.isDigit = false ∧ ch ≠ '.' := by
    cases hexponent with
    | none => exact fun ch hch => ⟨(hrest ch hch).1, (hrest ch hch).2.1⟩
    | some mark sign ds hmark => rcases hmark with rfl | rfl <;> simp
  have hpoint : ∀ ch ∈ (fraction ++ (exponent ++ rest)).head?, ch.isDigit = false := by
    cases hfraction with
    | none => exact fun ch hch => (hends ch hch).1
    | some ds => simp
  have hsmall : ∀ ch ∈ minus negative ++ (whole ++ fraction ++ exponent), ch.toNat < 0x80 := by
    simp only [List.forall_mem_append]
    refine ⟨?_, ⟨lt_of_digits hwhole.2, lt_of_fraction hfraction⟩, lt_of_exponent hexponent⟩
    cases negative <;> simp [minus]
  have hwritten : (ofChars (minus negative) ++ ofChars whole ++ ofChars fraction ++
      ofChars exponent).map (fun u => Char.ofNat u.toNat) =
        minus negative ++ (whole ++ fraction ++ exponent) := by
    rw [← map_ofChars hsmall]
    simp only [ofChars_append, List.append_assoc]
  have hnot : ∀ us, ofChars (whole ++ (fraction ++ (exponent ++ rest))) ≠ 45 :: us := by
    intro us h
    obtain ⟨d, ds, rfl, hd⟩ := hwhole.cons
    have hne : d ≠ '-' := Json.isDigit_ne hd (by decide)
    exact head_ne (d :: ds ++ (fraction ++ (exponent ++ rest))) '-' (by decide)
      (by simpa using hne) 45 (by rw [h]; rfl) rfl
  unfold number?
  split
  next sign us hsign =>
  obtain ⟨rfl, rfl⟩ : sign = ofChars (minus negative) ∧
      us = ofChars (whole ++ (fraction ++ (exponent ++ rest))) := by
    simp only [List.append_assoc] at hsign
    cases negative with
    | true =>
      cases hsign
      exact ⟨rfl, rfl⟩
    | false =>
      -- no digit is the minus
      simp only [minus, Bool.false_eq_true, if_false, List.nil_append] at hsign
      cases hsign
      exact ⟨rfl, rfl⟩
  simp only [whole?_eq hwhole hzero hpoint, places?_eq hfraction hends,
    exponent?_eq hexponent hrest, Option.bind_eq_bind, Option.bind_some, hwritten]
  cases Numeric.decimalAt _ <;> rfl

end LoadHook.Script.Document
