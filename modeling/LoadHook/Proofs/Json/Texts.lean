import LoadHook.Proofs.Json.Entries
import LoadHook.Proofs.Json.Quoting
import LoadHook.Proofs.Json.Spelling

/-!
# Texts that are read as a document

Which texts the reader takes for a document: words, whole numbers of 64 bits, strings however they
are escaped, and arrays and objects of such texts with white space between the tokens. In an object
each name stands once. The compact text of a document is one of them.
-/
namespace LoadHook.Json

open Text (Utf16)

/-- A text is read as a document, with the white space before it, by every reader that has as many
steps as the text has characters and may go as deep as the document. -/
def Reads (j : Json) (text : List Char) : Prop :=
  ∀ (n d : Nat) (c : Cursor) (blank rest : List Char), Blank blank → Cursor.EndsNumber rest →
    text.length ≤ n → j.depth ≤ d → c.rest = blank ++ (text ++ rest) →
    Takes (Cursor.value n d c) j rest

variable {c : Cursor} {rest blank text : List Char} {n d : Nat}

/-! ## Values without parts -/

/-- A word is read behind its first character. -/
theorem takes_constant {ch : Char} {ws : List Char} {j : Json} (h : c.rest = ch :: ws ++ rest) :
    Takes (do let ((), c) ← c.next.word ws; return (j, c)) j rest :=
  (Cursor.takes_word ws (Cursor.next_of_rest h)).bind fun _ hc => .ok hc

/-- A digit begins a number. -/
theorem value_digit {ch : Char} (h : c.skipSpace.rest = ch :: rest) (hch : ch.isDigit) :
    Cursor.value (n + 1) d c = c.skipSpace.number false := by
  rw [Cursor.value.eq_def]
  simp only [Cursor.peek_of_rest h]
  split
  all_goals simp_all

theorem reads_null : Reads .null ['n', 'u', 'l', 'l'] := by
  intro n d c blank rest hblank _ hn _ hc
  obtain ⟨n, rfl⟩ : ∃ m, n = m + 1 := ⟨n - 1, by simp at hn; omega⟩
  have hskip := Cursor.skipSpace_of_blank hblank (by decide) hc
  simp only [Cursor.value, Cursor.peek_of_rest hskip]
  exact takes_constant hskip

theorem reads_bool (b : Bool) :
    Reads (.bool b) (if b then ['t', 'r', 'u', 'e'] else ['f', 'a', 'l', 's', 'e']) := by
  intro n d c blank rest hblank _ hn _ hc
  obtain ⟨n, rfl⟩ : ∃ m, n = m + 1 := ⟨n - 1, by cases b <;> simp at hn <;> omega⟩
  cases b <;>
  · have hskip := Cursor.skipSpace_of_blank hblank (by decide) hc
    simp only [Cursor.value, Cursor.peek_of_rest hskip]
    exact takes_constant hskip

theorem reads_int {k : Int} (low : -Int.pow 2 63 ≤ k) (high : k < Int.pow 2 64) :
    Reads (.int k) (Decimal.intChars k) := by
  intro n d c blank rest hblank hends hn _ hc
  obtain ⟨ch, cs, hcs, hch⟩ := (digits_digitChars k.natAbs).1.cons
  by_cases hk : k < 0
  · simp only [Decimal.intChars, hk, if_true, List.length_cons] at hn
    obtain ⟨n, rfl⟩ : ∃ m, n = m + 1 := ⟨n - 1, by omega⟩
    have hminus : c.rest = blank ++ '-' :: (Decimal.digitChars k.natAbs ++ rest) := by
      simpa [Decimal.intChars, hk] using hc
    have hskip := Cursor.skipSpace_of_blank hblank (by decide) hminus
    simp only [Cursor.value, Cursor.peek_of_rest hskip]
    exact (Cursor.takes_int low high hends).2 hk (Cursor.next_of_rest hskip)
  · have hchars : Decimal.intChars k = ch :: cs := by simp [Decimal.intChars, hk, hcs]
    rw [hchars, List.length_cons] at hn
    obtain ⟨n, rfl⟩ : ∃ m, n = m + 1 := ⟨n - 1, by omega⟩
    rw [hchars, List.cons_append] at hc
    have hskip := Cursor.skipSpace_of_blank hblank (isSpace_digit hch) hc
    rw [value_digit hskip hch]
    exact (Cursor.takes_int low high hends).1 (by omega) (by rw [hskip, hchars, List.cons_append])

theorem reads_str {s : String} {body : List Char} (h : Quotes (Utf16.ofString s) body) :
    Reads (.str s) ('"' :: (body ++ ['"'])) := by
  intro n d c blank rest hblank _ hn _ hc
  rw [List.length_cons] at hn
  obtain ⟨n, rfl⟩ : ∃ m, n = m + 1 := ⟨n - 1, by omega⟩
  rw [List.cons_append, List.append_assoc, List.singleton_append] at hc
  have hskip := Cursor.skipSpace_of_blank hblank (by decide) hc
  simp only [Cursor.value, Cursor.peek_of_rest hskip]
  exact (Cursor.takes_string_of_quotes h (Cursor.next_of_rest hskip)).bind fun c hc => .ok hc

/-! ## Arrays -/

/-- The items of an array are read up to its end. -/
theorem takes_items {items : List (Json × Entry)} {first : Bool} (hblank : Blank blank)
    (hfits : ∀ i ∈ items, i.2.Fits none) (hword : ∀ i ∈ items, Wellformed i.2.text)
    (hreads : ∀ i ∈ items, Reads i.1 i.2.text)
    (hn : (Entry.remaining first blank (items.map Prod.snd)).length < n)
    (hd : itemDepth (items.map Prod.fst) ≤ d)
    (h : c.rest = Entry.remaining first blank (items.map Prod.snd) ++ ']' :: rest) :
    Takes (Cursor.items n d c first) (items.map Prod.fst) rest := by
  induction items generalizing c n first blank with
  | nil =>
    obtain ⟨n, rfl⟩ : ∃ m, n = m + 1 := ⟨n - 1, by omega⟩
    rw [Cursor.items]
    refine (Cursor.takes_nextItem_stop hblank h).bind fun c hc => ?_
    exact (Cursor.takes_listEnd hc).bind fun c hc => .ok hc
  | cons i items ih =>
    obtain ⟨n, rfl⟩ : ∃ m, n = m + 1 := ⟨n - 1, by omega⟩
    obtain ⟨hfit, hfits⟩ := List.forall_mem_cons.mp hfits
    obtain ⟨hi, hword⟩ := List.forall_mem_cons.mp hword
    obtain ⟨hread, hreads⟩ := List.forall_mem_cons.mp hreads
    have hlength : i.2.text.length +
        (Entry.remaining false i.2.after (items.map Prod.snd)).length ≤ n := by
      simp only [List.map_cons, Entry.remaining, List.length_append] at hn
      omega
    obtain ⟨ch, cs, htext, -⟩ := hi.cons
    have hpos : 0 < i.2.text.length := by simp [htext]
    rw [List.map_cons, itemDepth, Nat.max_le] at hd
    simp only [List.map_cons, Entry.remaining, List.append_assoc] at h
    rw [Cursor.items]
    refine (Cursor.takes_nextItem hblank hfit hi (by simpa using h)).bind fun c hc => ?_
    refine (hread n d c [] _ blank_nil (Cursor.endsNumber_remaining false hfit.after) (by omega)
      hd.1 hc).bind fun c hc => ?_
    refine (ih hfit.after hfits hword hreads (by omega) hd.2 hc).bind fun c hc => ?_
    exact .ok hc

theorem reads_arr (items : List (Json × Entry)) (hblank : Blank blank)
    (hfits : ∀ i ∈ items, i.2.Fits none) (hword : ∀ i ∈ items, Wellformed i.2.text)
    (hreads : ∀ i ∈ items, Reads i.1 i.2.text) :
    Reads (.arr (items.map Prod.fst))
      ('[' :: (Entry.between blank (items.map Prod.snd) ++ [']'])) := by
  intro n d c before rest hbefore _ hn hd hc
  rw [Entry.between_eq] at hn hc
  simp only [List.length_cons, List.length_append] at hn
  rw [depth] at hd
  obtain ⟨n, rfl⟩ : ∃ m, n = m + 1 := ⟨n - 1, by omega⟩
  obtain ⟨d, rfl⟩ : ∃ m, d = m + 1 := ⟨d - 1, by omega⟩
  rw [List.cons_append, List.append_assoc, List.singleton_append] at hc
  have hskip := Cursor.skipSpace_of_blank hbefore (by decide) hc
  simp only [Cursor.value, Cursor.peek_of_rest hskip]
  exact (takes_items hblank hfits hword hreads (by omega) (by omega)
    (Cursor.next_of_rest hskip)).bind fun c hc => .ok hc

/-! ## Objects -/

/-- The members of an object are read up to its end. -/
theorem takes_members {members : List ((String × Json) × Entry)} {first : Bool}
    (hblank : Blank blank) (hfits : ∀ m ∈ members, m.2.Fits (some (Utf16.ofString m.1.1)))
    (hreads : ∀ m ∈ members, Reads m.1.2 m.2.text)
    (hn : (Entry.remaining first blank (members.map Prod.snd)).length < n)
    (hd : memberDepth (members.map Prod.fst) ≤ d)
    (h : c.rest = Entry.remaining first blank (members.map Prod.snd) ++ '}' :: rest) :
    Takes (Cursor.members n d c first) (members.map Prod.fst) rest := by
  induction members generalizing c n first blank with
  | nil =>
    obtain ⟨n, rfl⟩ : ∃ m, n = m + 1 := ⟨n - 1, by omega⟩
    rw [Cursor.members]
    refine (Cursor.takes_nextName_stop hblank h).bind fun c hc => ?_
    exact (Cursor.takes_objectEnd hc).bind fun c hc => .ok hc
  | cons m members ih =>
    obtain ⟨n, rfl⟩ : ∃ m, n = m + 1 := ⟨n - 1, by omega⟩
    obtain ⟨hfit, hfits⟩ := List.forall_mem_cons.mp hfits
    obtain ⟨hread, hreads⟩ := List.forall_mem_cons.mp hreads
    have hhead : 0 < m.2.head.length := by
      obtain ⟨hhead, -, -⟩ := hfit
      generalize m.2.head = head at hhead
      cases hhead
      simp
    have hlength : m.2.text.length +
        (Entry.remaining false m.2.after (members.map Prod.snd)).length < n := by
      simp only [List.map_cons, Entry.remaining, List.length_append] at hn
      omega
    rw [List.map_cons, memberDepth, Nat.max_le] at hd
    simp only [List.map_cons, Entry.remaining, List.append_assoc] at h
    obtain ⟨body, back, hbody, hback, hname⟩ :=
      Cursor.takes_nextName hblank hfit (by simpa using h)
    rw [Cursor.members]
    refine hname.bind fun c hc => ?_
    refine (Cursor.takes_string_of_quotes hbody hc).bind fun c hc => ?_
    refine (Cursor.takes_colon hback hc).bind fun c hc => ?_
    refine (hread n d c m.2.before _ hfit.before (Cursor.endsNumber_remaining true hfit.after)
      (by omega) hd.1 hc).bind fun c hc => ?_
    refine (ih hfit.after hfits hreads (by omega) hd.2 hc).bind fun c hc => ?_
    exact .ok hc

theorem reads_obj (members : List ((String × Json) × Entry)) (hblank : Blank blank)
    (hfits : ∀ m ∈ members, m.2.Fits (some (Utf16.ofString m.1.1)))
    (hreads : ∀ m ∈ members, Reads m.1.2 m.2.text)
    (hnames : (members.map fun m => m.1.1).Nodup) :
    Reads (ofMembers (members.map Prod.fst))
      ('{' :: (Entry.between blank (members.map Prod.snd) ++ ['}'])) := by
  intro n d c before rest hbefore _ hn hd hc
  rw [Entry.between_eq] at hn hc
  simp only [List.length_cons, List.length_append] at hn
  rw [ofMembers, depth] at hd
  obtain ⟨n, rfl⟩ : ∃ m, n = m + 1 := ⟨n - 1, by omega⟩
  obtain ⟨d, rfl⟩ : ∃ m, d = m + 1 := ⟨d - 1, by omega⟩
  -- no member is replaced, so that none is deeper than the object lets it be
  have hdepth : memberDepth (members.map Prod.fst) ≤ d := by
    refine memberDepth_le.mpr fun m hm => memberDepth_le.mp (Nat.le_of_succ_le_succ hd) m ?_
    rw [mem_sortMembers_iff, last_iff_mem (by rwa [List.map_map])]
    exact hm
  rw [List.cons_append, List.append_assoc, List.singleton_append] at hc
  have hskip := Cursor.skipSpace_of_blank hbefore (by decide) hc
  simp only [Cursor.value, Cursor.peek_of_rest hskip]
  exact (takes_members hblank hfits hreads (by omega) hdepth (Cursor.next_of_rest hskip)).bind
    fun c hc => .ok hc

/-! ## The compact text -/

/-- The compact text of a document of 64-bit whole numbers is read as the document. -/
theorem Exact.reads {j : Json} (h : Exact j) : Reads j j.chars := by
  induction h with
  | null => exact reads_null
  | bool b => cases b <;> exact reads_bool _
  | int n low high => exact reads_int low high
  | str s => exact reads_str (quotes_flatMap_escapeChar s.toList)
  | arr items exact ih =>
    have hreads := reads_arr (items.map fun j => (j, Entry.ofItem j)) blank_nil
      (List.forall_mem_map.mpr fun j _ => Entry.fits_bare j.chars)
      (List.forall_mem_map.mpr fun j hj => (exact j hj).writes.wellformed)
      (List.forall_mem_map.mpr ih)
    rw [chars, Entry.itemChars_eq]
    simpa [Function.comp_def] using hreads
  | obj members sorted exact ih =>
    have hnames : ((members.map fun m => (m, Entry.ofMember m)).map fun m => m.1.1).Nodup := by
      rw [List.map_map]
      exact List.pairwise_map.mpr (sorted.imp fun hlt => ne_of_lt hlt)
    have hreads := reads_obj (members.map fun m => (m, Entry.ofMember m)) blank_nil
      (List.forall_mem_map.mpr fun m _ => Entry.fits_named m.1 m.2.chars)
      (List.forall_mem_map.mpr ih) hnames
    rw [chars, Entry.memberChars_eq]
    simpa [Function.comp_def, ofMembers, sortMembers_sorted sorted] using hreads

/-- A text that is read as a document that is not nested too deep stands for the document. -/
theorem Reads.parse {j : Json} {text : List Char} (h : Reads j text)
    (hdepth : j.depth ≤ depthLimit) : parse (String.ofList text) = .ok j := by
  rw [Json.parse, String.toList_ofList]
  refine Cursor.finish_of_takes (h _ depthLimit _ [] [] blank_nil endsNumber_nil ?_ hdepth ?_)
    blank_nil
  · omega
  · simp

/-- The compact text of a document that is not nested too deep is read back as the document. -/
theorem Exact.parse_compact {j : Json} (h : Exact j) (hdepth : j.depth ≤ depthLimit) :
    parse j.compact = .ok j := by
  rw [← String.ofList_toList (s := j.compact), toList_compact]
  exact h.reads.parse hdepth

end LoadHook.Json
