import LoadHook.Text.Utf16

/-!
# Text in 16-bit units, and back

A character is one unit that is no half of a pair, or a pair. So the units of a text are read back
as that text.
-/
namespace LoadHook.Text.Utf16

variable {c : Char} {u v : UInt16} {us : Utf16}

theorem toNat_unit {n : Nat} (hn : n < 0x10000) : n.toUInt16.toNat = n := Nat.mod_eq_of_lt hn

theorem isLead_iff : isLead u ↔ 0xD800 ≤ u.toNat ∧ u.toNat ≤ 0xDBFF := by
  simp [isLead, UInt16.le_iff_toNat_le]

theorem isTrail_iff : isTrail u ↔ 0xDC00 ≤ u.toNat ∧ u.toNat ≤ 0xDFFF := by
  simp [isTrail, UInt16.le_iff_toNat_le]

/-- A character of the basic plane is one unit, which is no half of a pair. -/
theorem ofChar_of_lt (hc : c.toNat < 0x10000) :
    ∃ u, ofChar c = [u] ∧ isLead u = false ∧ isTrail u = false ∧ Char.ofNat u.toNat = c := by
  have hvalid : c.toNat < 0xD800 ∨ 0xDFFF < c.toNat ∧ c.toNat < 0x110000 := c.valid
  have hn : c.toNat.toUInt16.toNat = c.toNat := toNat_unit hc
  refine ⟨c.toNat.toUInt16, by rw [ofChar, if_pos hc], ?_, ?_, by rw [hn, Char.ofNat_toNat]⟩
  · rw [Bool.eq_false_iff, ne_eq, isLead_iff, hn]
    omega
  · rw [Bool.eq_false_iff, ne_eq, isTrail_iff, hn]
    omega

/-- A pair is told apart from other units, and stands for its code point. -/
theorem pair_of_toNat {d m : Nat} (hd : d < 0x400) (hm : m < 0x400) (hu : u.toNat = 0xD800 + d)
    (hv : v.toNat = 0xDC00 + m) :
    isLead u ∧ isTrail v ∧ pairPoint u v = 0x10000 + d * 0x400 + m := by
  rw [isLead_iff, isTrail_iff]
  unfold pairPoint
  omega

/-- Any other character is a pair. -/
theorem ofChar_of_ge (hc : 0x10000 ≤ c.toNat) :
    ∃ u v, ofChar c = [u, v] ∧ isLead u ∧ isTrail v ∧ Char.ofNat (pairPoint u v) = c := by
  have hvalid : c.toNat < 0xD800 ∨ 0xDFFF < c.toNat ∧ c.toNat < 0x110000 := c.valid
  have hd : (c.toNat - 0x10000) / 0x400 < 0x400 := by omega
  have hm : (c.toNat - 0x10000) % 0x400 < 0x400 := Nat.mod_lt _ (by decide)
  obtain ⟨hlead, htrail, hpoint⟩ := pair_of_toNat hd hm (toNat_unit (by omega))
    (toNat_unit (by omega))
  refine ⟨_, _, by rw [ofChar, if_neg (Nat.not_lt.mpr hc)], hlead, htrail, ?_⟩
  have hback : 0x10000 + (c.toNat - 0x10000) / 0x400 * 0x400 + (c.toNat - 0x10000) % 0x400 =
      c.toNat := by omega
  rw [hpoint, hback, Char.ofNat_toNat]

theorem charsWith_cons {lone : UInt16 → Char} (hl : isLead u = false) (ht : isTrail u = false) :
    charsWith lone (u :: us) = Char.ofNat u.toNat :: charsWith lone us := by
  cases us <;> simp [charsWith, hl, ht]

theorem loneAt_cons {n : Nat} (hl : isLead u = false) (ht : isTrail u = false)
    (hus : ∀ n, loneAt n us = none) : loneAt n (u :: us) = none := by
  cases us <;> simp [loneAt, hl, ht, hus]

/-- The units of a text hold no lone half of a pair, and are read back as the text. -/
theorem ofChars_read (cs : List Char) :
    (∀ n, loneAt n (ofChars cs) = none) ∧ ∀ lone, charsWith lone (ofChars cs) = cs := by
  induction cs with
  | nil => exact ⟨fun _ => rfl, fun _ => rfl⟩
  | cons c cs ih =>
    obtain ⟨hlone, hchars⟩ := ih
    rw [ofChars, List.flatMap_cons, ← ofChars]
    by_cases hc : c.toNat < 0x10000
    · obtain ⟨u, hu, hl, ht, he⟩ := ofChar_of_lt hc
      rw [hu, List.singleton_append]
      exact ⟨fun n => loneAt_cons hl ht hlone,
        fun lone => (charsWith_cons hl ht).trans (by rw [he, hchars])⟩
    · obtain ⟨u, v, huv, hl, ht, he⟩ := ofChar_of_ge (Nat.not_lt.mp hc)
      rw [huv]
      exact ⟨fun n => by simp [loneAt, hl, ht, hlone],
        fun lone => by simp [charsWith, hl, ht, he, hchars]⟩

/-- No character is without units. -/
theorem ofChar_cons (c : Char) : ∃ u us, ofChar c = u :: us := by
  rw [ofChar]
  by_cases hc : c.toNat < 0x10000
  · exact ⟨_, _, if_pos hc⟩
  · exact ⟨_, _, if_neg hc⟩

/-- What comes before other units is read first. -/
theorem charsWith_append (lone : UInt16 → Char) (c : Char) (us : Utf16) :
    charsWith lone (ofChar c ++ us) = c :: charsWith lone us := by
  by_cases hc : c.toNat < 0x10000
  · obtain ⟨u, hu, hl, ht, he⟩ := ofChar_of_lt hc
    rw [hu, List.singleton_append, charsWith_cons hl ht, he]
  · obtain ⟨u, v, huv, hl, ht, he⟩ := ofChar_of_ge (Nat.not_lt.mp hc)
    rw [huv]
    simp [charsWith, hl, ht, he]

/-- A text whose units begin with those of a character begins with this character. -/
theorem ofChars_eq_append {cs : List Char} (h : ofChars cs = ofChar c ++ us) :
    ∃ rest, cs = c :: rest ∧ us = ofChars rest := by
  let lone : UInt16 → Char := fun _ => '\uFFFD'
  have hcs : cs = c :: charsWith lone us := by
    rw [← charsWith_append, ← h, (ofChars_read cs).2]
  refine ⟨charsWith lone us, hcs, ?_⟩
  rw [hcs, ofChars, List.flatMap_cons] at h
  exact (List.append_cancel_left h).symm

/-- The first unit of a text is a character, or the first half of one. -/
theorem ofChars_eq_cons {cs : List Char} (h : ofChars cs = u :: us) :
    (isLead u = false ∧ isTrail u = false ∧
      ∃ rest, cs = Char.ofNat u.toNat :: rest ∧ us = ofChars rest) ∨
    ∃ v rest, isLead u ∧ isTrail v ∧ cs = Char.ofNat (pairPoint u v) :: rest ∧
      us = v :: ofChars rest := by
  cases cs with
  | nil => cases h
  | cons c cs =>
    rw [ofChars, List.flatMap_cons, ← ofChars] at h
    by_cases hc : c.toNat < 0x10000
    · obtain ⟨w, hw, hl, ht, he⟩ := ofChar_of_lt hc
      rw [hw] at h
      cases h
      exact .inl ⟨hl, ht, cs, by rw [he], rfl⟩
    · obtain ⟨w, v, hwv, hl, ht, he⟩ := ofChar_of_ge (Nat.not_lt.mp hc)
      rw [hwv] at h
      cases h
      exact .inr ⟨v, cs, hl, ht, by rw [he], rfl⟩

/-- No character begins with the second half of a pair. -/
theorem ofChar_append_ne (c : Char) {vs : Utf16} (hv : isTrail v) : ofChar c ++ us ≠ v :: vs := by
  intro h
  by_cases hc : c.toNat < 0x10000
  · obtain ⟨w, hw, -, ht, -⟩ := ofChar_of_lt hc
    rw [hw] at h
    cases h
    rw [ht] at hv
    cases hv
  · obtain ⟨w, z, hwz, hl, -, -⟩ := ofChar_of_ge (Nat.not_lt.mp hc)
    rw [hwz] at h
    cases h
    have hlead := isLead_iff.mp hl
    have htrail := isTrail_iff.mp hv
    omega

/-- A text in units is read back as that text. -/
theorem toString?_ofString (s : String) : toString? (ofString s) = .ok s := by
  obtain ⟨hlone, hchars⟩ := ofChars_read s.toList
  simp only [toString?, ofString, hlone, toString, hchars, String.ofList_toList]

end LoadHook.Text.Utf16
