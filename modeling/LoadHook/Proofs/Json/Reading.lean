import Mathlib.Data.List.Basic
import LoadHook.Json.Printer
import LoadHook.Json.Reader
import LoadHook.Proofs.Lookup

/-!
# What a reader takes

A reader of JSON text gives a value and the place after it. Of the place only the text that is
left matters, not the line and the column, so that a reader is described by what it takes from
the front of a text. Numbers end where the text cannot go on with them. What is read are documents
whose objects have one member for each name, in order, whatever their text is.
-/
namespace LoadHook.Json

/-- A value read, with this text left. -/
def Takes {α : Type} (r : Except Fault (α × Cursor)) (a : α) (rest : List Char) : Prop :=
  ∃ c, r = .ok (a, c) ∧ c.rest = rest

variable {α β : Type} {a : α} {b : β} {c : Cursor} {rest after : List Char}

theorem Takes.ok (h : c.rest = rest) : Takes (.ok (a, c)) a rest := ⟨c, rfl, h⟩

/-- One reader after the other. -/
theorem Takes.bind {r : Except Fault (α × Cursor)} {f : α × Cursor → Except Fault (β × Cursor)}
    (h : Takes r a rest) (hf : ∀ c, c.rest = rest → Takes (f (a, c)) b after) :
    Takes (r >>= f) b after := by
  obtain ⟨c, rfl, hc⟩ := h
  exact hf c hc

namespace Cursor

@[simp] theorem rest_next (c : Cursor) : c.next.rest = c.rest.tail := by
  unfold next
  split
  · next h => simp [h]
  · next h => split <;> simp [h]

@[simp] theorem rest_start (cs : List Char) : (start cs).rest = cs := rfl

theorem peek_of_rest {ch : Char} (h : c.rest = ch :: rest) : c.peek = some ch := by simp [peek, h]

theorem next_of_rest {ch : Char} (h : c.rest = ch :: rest) : c.next.rest = rest := by simp [h]

/-- There is no white space to pass. -/
theorem skipSpace_of_rest {ch : Char} (h : c.rest = ch :: rest) (hch : isSpace ch = false) :
    c.skipSpace = c := by
  rw [skipSpace, h, skipSpace.go, hch]
  exact congrArg (fun text => (⟨text, c.line, c.column⟩ : Cursor)) h.symm

/-- A word is taken from a text that goes on with it. -/
theorem takes_word (ws : List Char) (h : c.rest = ws ++ rest) : Takes (c.word ws) () rest := by
  induction ws generalizing c with
  | nil => exact .ok h
  | cons w ws ih =>
    have hnext : c.next.rest = ws ++ rest := next_of_rest h
    simp only [word, peek_of_rest h, if_true]
    exact ih hnext

/-! ## Strings -/

/-- What follows a backslash is read as the character it stands for. -/
theorem takes_escape_simple {ch e : Char} (h : c.rest = ch :: rest) (hu : ch ≠ 'u')
    (he : simpleEscape ch = some e) : Takes c.escape e rest := by
  have hnext : c.next.rest = rest := next_of_rest h
  rw [escape, peek_of_rest h]
  split
  · contradiction
  · next hch => exact absurd (Option.some.inj hch) hu
  · next hch =>
    cases hch
    rw [he]
    exact .ok hnext

/-! ## Whole numbers -/

/-- A text that does not go on with a number. -/
def EndsNumber (rest : List Char) : Prop :=
  ∀ ch ∈ rest.head?, ch.isDigit = false ∧ ch ≠ '.' ∧ ch ≠ 'e' ∧ ch ≠ 'E'

theorem digit?_of_rest {ch : Char} (h : c.rest = ch :: rest) (hch : ch.isDigit) :
    c.digit? = some (ch.toNat - 48) := by
  simp [digit?, h, hch]

theorem EndsNumber.digit? (h : EndsNumber c.rest) : c.digit? = none := by
  unfold Cursor.digit?
  split
  · next ch _ hc => simp [(h ch (by simp [hc])).1]
  · rfl

/-- The whole part is the whole number. -/
theorem EndsNumber.whole (h : EndsNumber c.rest) (negative : Bool) (n : Nat) :
    c.whole negative n =
      if !negative then .ok (.int n, c)
      else if n = 0 || n > Nat.pow 2 63 then .ok (.real (-(Decimal.toFloat n 0)), c)
      else .ok (.int (-(n : Int)), c) := by
  have hpoint : (c.peek == some '.') = false := by
    simpa [peek] using fun hc => (h '.' (by simp [hc])).2.1 rfl
  have hexponent : c.atExponent = false := by
    have he : c.peek ≠ some 'e' := fun hc => (h 'e' hc).2.2.1 rfl
    have hE : c.peek ≠ some 'E' := fun hc => (h 'E' hc).2.2.2 rfl
    simp [atExponent, he, hE]
  simp [Cursor.whole, hpoint, hexponent]

theorem init_le_ofDigitChars (ds : List Char) (init : Nat) :
    init ≤ Nat.ofDigitChars 10 ds init := by
  induction ds generalizing init with
  | nil => simp
  | cons d ds ih =>
    rw [Nat.ofDigitChars_cons]
    exact Nat.le_trans (by omega) (ih _)

/-- The digits of a number that fits a word are all read. -/
theorem wholeDigits_eq (ds : List Char) (n : Nat) (negative : Bool) (read : Nat)
    (hn : ds.length < n) (hds : ∀ d ∈ ds, d.isDigit)
    (hmax : Nat.ofDigitChars 10 ds read ≤ wordMax) (hrest : EndsNumber rest)
    (h : c.rest = ds ++ rest) :
    ∃ c' : Cursor, wholeDigits n c negative read = c'.whole negative (Nat.ofDigitChars 10 ds read) ∧
      c'.rest = rest := by
  induction ds generalizing c n read with
  | nil =>
    obtain ⟨n, rfl⟩ := Nat.exists_eq_add_of_lt hn
    have hnone : c.digit? = none := EndsNumber.digit? (by rwa [h])
    exact ⟨c, by simp [wholeDigits, hnone], h⟩
  | cons d ds ih =>
    obtain ⟨n, rfl⟩ : ∃ m, n = m + 1 := ⟨n - 1, by simp at hn; omega⟩
    have hdigit := digit?_of_rest h (hds d List.mem_cons_self)
    rw [Nat.ofDigitChars_cons, Nat.mul_comm 10] at hmax
    have hfits : ¬read * 10 + (d.toNat - 48) > wordMax :=
      Nat.not_lt.mpr (Nat.le_trans (init_le_ofDigitChars ds _) hmax)
    obtain ⟨c', hc', hrest'⟩ := ih n (read * 10 + (d.toNat - 48)) (by simpa using hn)
      (fun e he => hds e (List.mem_cons_of_mem d he)) hmax (next_of_rest h)
    refine ⟨c', ?_, hrest'⟩
    rw [wholeDigits, hdigit, Nat.ofDigitChars_cons, Nat.mul_comm 10]
    simpa [hfits] using hc'

/-- A number above zero does not begin with a zero. -/
theorem head?_toDigits_ne {n : Nat} (h : 0 < n) : (Nat.toDigits 10 n).head? ≠ some '0' := by
  induction n using Nat.strongRecOn with
  | ind n ih =>
    rw [Nat.toDigits_eq_if (by decide)]
    split
    · simpa [Nat.digitChar_eq_zero] using Nat.pos_iff_ne_zero.mp h
    · have hne : Nat.toDigits 10 (n / 10) ≠ [] := Nat.toDigits_ne_nil
      rw [List.head?_append_of_ne_nil _ hne]
      exact ih (n / 10) (by omega) (by omega)

/-- Only one digit has the value zero. -/
theorem toNat_sub_ne_zero {d : Char} (hd : d.isDigit) (h : d ≠ '0') : d.toNat - 48 ≠ 0 := by
  intro hzero
  have hge : 48 ≤ d.toNat := (Char.isDigit_iff_toNat.mp hd).1
  exact h (Char.toNat_inj.mp (show d.toNat = 48 by omega))

/-- The digits of a number that fits a word are read as its whole part. -/
theorem number_eq {n : Nat} (negative : Bool) (hmax : n ≤ wordMax) (hrest : EndsNumber rest)
    (h : c.rest = Decimal.digitChars n ++ rest) :
    ∃ c' : Cursor, c.number negative = c'.whole negative n ∧ c'.rest = rest := by
  rcases Nat.eq_zero_or_pos n with rfl | hpos
  · have hnext : c.next.rest = rest := next_of_rest h
    have hnone : c.next.digit? = none := EndsNumber.digit? (by rwa [hnext])
    refine ⟨c.next, ?_, hnext⟩
    have hdigit : c.digit? = some 0 := digit?_of_rest h (by decide)
    rw [number, peek_of_rest h, hdigit]
    simp only [hnone, Option.isSome_none, Bool.false_eq_true, if_false]
  have hvalue : Nat.ofDigitChars 10 (Decimal.digitChars n) 0 = n := Nat.ofDigitChars_ten_toDigits
  have hdigits : ∀ d ∈ Decimal.digitChars n, d.isDigit := fun d hd =>
    Nat.isDigit_of_mem_toDigits (by decide) (by decide) hd
  have hhead : (Decimal.digitChars n).head? ≠ some '0' := head?_toDigits_ne hpos
  cases hds : Decimal.digitChars n with
  | nil => exact absurd hds Nat.toDigits_ne_nil
  | cons d ds =>
    rw [hds] at h hvalue hdigits hhead
    have hd := hdigits d List.mem_cons_self
    have hne : d.toNat - 48 ≠ 0 := toNat_sub_ne_zero hd fun e => hhead (by simp [e])
    have hnext := next_of_rest h
    rw [Nat.ofDigitChars_cons, Nat.mul_zero, Nat.zero_add] at hvalue
    have hlength : ds.length < c.rest.length + 1 := by
      rw [h, List.length_append, List.length_cons]
      omega
    obtain ⟨c', hc', hrest'⟩ := wholeDigits_eq ds (c.rest.length + 1) negative (d.toNat - 48)
      hlength (fun e he => hdigits e (List.mem_cons_of_mem d he)) (hvalue ▸ hmax) hrest hnext
    refine ⟨c', ?_, hrest'⟩
    rw [number, peek_of_rest h, digit?_of_rest h hd]
    split
    · contradiction
    · contradiction
    · next hzero => exact absurd (Option.some.inj hzero) hne
    · next he =>
      cases he
      exact hc'.trans (congrArg _ hvalue)

/-- A whole number of 64 bits is taken. -/
theorem takes_int {n : Int} (low : -Int.pow 2 63 ≤ n) (high : n < Int.pow 2 64)
    (hrest : EndsNumber rest) :
    (0 ≤ n → c.rest = Decimal.intChars n ++ rest → Takes (c.number false) (.int n) rest) ∧
    (n < 0 → c.rest = Decimal.digitChars n.natAbs ++ rest →
      Takes (c.number true) (.int n) rest) := by
  have hlow : -9223372036854775808 ≤ n := low
  have hhigh : n < 18446744073709551616 := high
  have hmax : n.natAbs ≤ wordMax := by
    have : wordMax = 18446744073709551615 := rfl
    omega
  refine ⟨fun hn h => ?_, fun hn h => ?_⟩
  · rw [Decimal.intChars, if_neg (by omega)] at h
    obtain ⟨c', hc', hrest'⟩ := number_eq false hmax hrest h
    have hends : EndsNumber c'.rest := by rwa [hrest']
    rw [hc', hends.whole, Int.natAbs_of_nonneg hn]
    exact .ok hrest'
  · obtain ⟨c', hc', hrest'⟩ := number_eq true hmax hrest h
    have hends : EndsNumber c'.rest := by rwa [hrest']
    have hfits : ¬(n.natAbs = 0 ∨ n.natAbs > Nat.pow 2 63) := by
      have : Nat.pow 2 63 = 9223372036854775808 := rfl
      omega
    have habs : -(n.natAbs : Int) = n := by omega
    rw [hc', hends.whole]
    simp only [Bool.not_true, Bool.false_eq_true, if_false, Bool.or_eq_true, decide_eq_true_eq,
      hfits, habs]
    exact .ok hrest'

end Cursor
/-! ## Documents -/

/-- A document of 64-bit whole numbers whose objects are sorted by name. -/
inductive Exact : Json → Prop where
  | null : Exact .null
  | bool (b : Bool) : Exact (.bool b)
  | int (n : Int) (low : -Int.pow 2 63 ≤ n) (high : n < Int.pow 2 64) : Exact (.int n)
  | str (s : String) : Exact (.str s)
  | arr (items : List Json) (exact : ∀ j ∈ items, Exact j) : Exact (.arr items)
  | obj (members : List (String × Json)) (sorted : members.Pairwise fun m n => m.1 < n.1)
      (exact : ∀ m ∈ members, Exact m.2) : Exact (.obj members)

mutual

/-- How deep arrays and objects are nested in a document. -/
def depth : Json → Nat
  | .arr items => itemDepth items + 1
  | .obj members => memberDepth members + 1
  | _ => 0

/-- How deep arrays and objects are nested in the items of an array. -/
def itemDepth : List Json → Nat
  | [] => 0
  | j :: rest => max (depth j) (itemDepth rest)

/-- How deep arrays and objects are nested in the members of an object. -/
def memberDepth : List (String × Json) → Nat
  | [] => 0
  | m :: rest => max (depth m.2) (memberDepth rest)

end

theorem itemDepth_le {items : List Json} {d : Nat} :
    itemDepth items ≤ d ↔ ∀ j ∈ items, depth j ≤ d := by
  induction items with
  | nil => simp [itemDepth]
  | cons j rest ih => rw [itemDepth, Nat.max_le, ih, List.forall_mem_cons]

theorem memberDepth_le {members : List (String × Json)} {d : Nat} :
    memberDepth members ≤ d ↔ ∀ m ∈ members, depth m.2 ≤ d := by
  induction members with
  | nil => simp [memberDepth]
  | cons m rest ih => rw [memberDepth, Nat.max_le, ih, List.forall_mem_cons]

/-! ## Members -/

/-- A name behind all others is put at the end. -/
theorem insert_last {α : Type} {name : String} {value : α} {members : List (String × α)}
    (h : ∀ m ∈ members, m.1 < name) : insert name value members = members ++ [(name, value)] := by
  induction members with
  | nil => rfl
  | cons m rest ih =>
    have hm : m.1 < name := h m List.mem_cons_self
    have hne : name ≠ m.1 := fun e => String.lt_irrefl _ (e ▸ hm)
    rw [insert, if_neg hne, if_neg (String.lt_asymm hm),
      ih fun k hk => h k (List.mem_cons_of_mem m hk)]
    rfl

/-- Members in order are left as they are. -/
theorem sortMembers_sorted {α : Type} {members : List (String × α)}
    (h : members.Pairwise fun m n => m.1 < n.1) : sortMembers members = members := by
  suffices hfold : ∀ sorted : List (String × α),
      (sorted ++ members).Pairwise (fun m n => m.1 < n.1) →
      members.foldl (fun sorted m => insert m.1 m.2 sorted) sorted = sorted ++ members from
    hfold [] h
  clear h
  induction members with
  | nil => simp
  | cons m rest ih =>
    intro sorted h
    have hlast : ∀ k ∈ sorted, k.1 < m.1 := fun k hk =>
      (List.pairwise_append.mp h).2.2 k hk m List.mem_cons_self
    rw [List.foldl_cons, insert_last hlast, ih _ (by simpa using h)]
    simp

/-- The names that stay keep their values. -/
theorem lookup_filter {α : Type} {name : String} (keep : String → Bool)
    (members : List (String × α)) :
    lookup name (members.filter fun m => keep m.1) =
      if keep name then lookup name members else none :=
  Lookup.lookup_filter keep members name

/-! ## Where a value begins and ends -/

theorem endsNumber_nil : Cursor.EndsNumber [] := by simp [Cursor.EndsNumber]

theorem endsNumber_cons {ch : Char} (rest : List Char) (h : ch = ',' ∨ ch = ']' ∨ ch = '}') :
    Cursor.EndsNumber (ch :: rest) := by
  intro d hd
  cases hd
  rcases h with rfl | rfl | rfl <;> decide

/-- Digits begin nothing but a number. -/
theorem isDigit_ne {d ch : Char} (hd : d.isDigit) (h : ch.isDigit = false) : d ≠ ch := by
  rintro rfl
  rw [h] at hd
  cases hd

theorem isSpace_digit {d : Char} (hd : d.isDigit) : Cursor.isSpace d = false := by
  have hne : ∀ ch : Char, ch.isDigit = false → (d == ch) = false := fun ch h =>
    beq_eq_false_iff_ne.mpr (isDigit_ne hd h)
  rw [Cursor.isSpace, hne ' ' (by decide), hne '\n' (by decide), hne '\t' (by decide),
    hne '\r' (by decide)]
  rfl

end LoadHook.Json
