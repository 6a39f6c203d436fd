import LoadHook.Text.Blank
import Mathlib.Data.List.DropRight

/-!
# Lines and the blanks around a text

A text is cut into lines at its line feeds, and a carriage return before a line feed belongs to the
end of the line. Who does not mind blanks at the end of a line does not mind that either.
-/
namespace LoadHook.Text

variable {cs ds b l line rest : List Char}

/-! ## Trimming -/

/-- The first character is no blank. -/
def StartsPlain (cs : List Char) : Prop := ∀ c ∈ cs.head?, isBlank c = false

/-- The last character is no blank. -/
def EndsPlain (cs : List Char) : Prop := ∀ c ∈ cs.getLast?, isBlank c = false

theorem isBlank_of_mem {c : Char} (hb : allBlank b) (hc : c ∈ b) : isBlank c :=
  List.all_eq_true.mp hb c hc

theorem trimEnd_eq (cs : List Char) : trimEnd cs = cs.rdropWhile isBlank := rfl

theorem endsPlain_iff : EndsPlain cs ↔ trimEnd cs = cs := by
  rw [trimEnd_eq, List.rdropWhile_eq_self_iff]
  constructor
  · intro h hne
    rw [h _ (List.getLast_mem_getLast? hne)]
    exact Bool.false_ne_true
  · intro h c hc
    obtain ⟨hne, rfl⟩ := List.mem_getLast?_eq_getLast hc
    exact Bool.eq_false_iff.mpr (h hne)

theorem startsPlain_iff : StartsPlain cs ↔ trimStart cs = cs := by
  cases cs with
  | nil => simp [StartsPlain]
  | cons c rest =>
    cases hc : isBlank c with
    | false => simp [StartsPlain, trimStart, hc]
    | true =>
      have hshort : (rest.dropWhile isBlank).length ≤ rest.length :=
        (List.dropWhile_sublist isBlank).length_le
      have hne : rest.dropWhile isBlank ≠ c :: rest := by
        intro heq
        rw [heq, List.length_cons] at hshort
        omega
      simp [StartsPlain, trimStart, hc, hne]

theorem endsPlain_trimEnd (cs : List Char) : EndsPlain (trimEnd cs) :=
  endsPlain_iff.mpr (List.rdropWhile_idempotent isBlank cs)

theorem startsPlain_trimStart (cs : List Char) : StartsPlain (trimStart cs) :=
  startsPlain_iff.mpr (List.dropWhile_idempotent isBlank cs)

/-- What is trimmed off at the end is blank. -/
theorem exists_trimEnd (cs : List Char) : ∃ b, allBlank b ∧ trimEnd cs ++ b = cs :=
  ⟨cs.rtakeWhile isBlank, List.all_eq_true.mpr fun _ hc => List.mem_rtakeWhile_imp hc,
    List.rdropWhile_append_rtakeWhile⟩

/-- What is trimmed off at the beginning is blank. -/
theorem exists_trimStart (cs : List Char) : ∃ b, allBlank b ∧ b ++ trimStart cs = cs :=
  ⟨cs.takeWhile isBlank, List.all_takeWhile, List.takeWhile_append_dropWhile⟩

theorem trimEnd_append (cs : List Char) (hb : allBlank b) : trimEnd (cs ++ b) = trimEnd cs := by
  rw [trimEnd, List.reverse_append, List.dropWhile_append_of_pos]
  · rfl
  · intro c hc
    exact isBlank_of_mem hb (List.mem_reverse.mp hc)

theorem trimEnd_of_allBlank (hb : allBlank b) : trimEnd b = [] := trimEnd_append [] hb

theorem allBlank_of_trimEnd (h : trimEnd cs = []) : allBlank cs :=
  List.all_eq_true.mpr (List.rdropWhile_eq_nil_iff.mp h)

theorem EndsPlain.of_append (h : EndsPlain (cs ++ ds)) (hne : ds ≠ []) : EndsPlain ds := by
  intro c hc
  exact h c (by rw [List.getLast?_append_of_ne_nil cs hne]; exact hc)

theorem EndsPlain.append (cs : List Char) (h : EndsPlain ds) (hne : ds ≠ []) :
    EndsPlain (cs ++ ds) := by
  intro c hc
  exact h c (by rw [List.getLast?_append_of_ne_nil cs hne] at hc; exact hc)

/-- A text that is not empty and does not end with a blank is not blank. -/
theorem EndsPlain.not_allBlank (h : EndsPlain cs) (hne : cs ≠ []) : ¬ allBlank cs := by
  intro hb
  have hlast := h _ (List.getLast_mem_getLast? hne)
  rw [isBlank_of_mem hb (List.getLast_mem hne)] at hlast
  cases hlast

/-! ## Lines -/

/-- How a line ends, unless the text ends with it. -/
inductive LineEnd : List Char → Prop
  | feed : LineEnd ['\n']
  | returned : LineEnd ['\r', '\n']

/-- A text and the lines that it is cut into. -/
inductive Lined : List Char → List (List Char) → Prop
  | nil : Lined [] []
  | last {l : List Char} (hl : '\n' ∉ l) (hne : l ≠ []) : Lined l [l]
  | feed {l rest : List Char} {ls : List (List Char)} (hl : '\n' ∉ l)
    (hreturn : l.getLast? ≠ some '\r') (hrest : Lined rest ls) :
    Lined (l ++ '\n' :: rest) (l :: ls)
  | returned {l rest : List Char} {ls : List (List Char)} (hl : '\n' ∉ l)
    (hrest : Lined rest ls) : Lined (l ++ '\r' :: '\n' :: rest) (l :: ls)

theorem lined_gatherLines (hline : '\n' ∉ line) (cs : List Char) :
    Lined (line.reverse ++ cs) (gatherLines line cs) := by
  induction cs generalizing line with
  | nil =>
    rw [List.append_nil, gatherLines]
    cases line with
    | nil => exact .nil
    | cons c more => exact .last (by rwa [List.mem_reverse]) (by simp)
  | cons c rest ih =>
    rw [gatherLines]
    split
    · next hc =>
      subst hc
      have hrest : Lined rest (gatherLines [] rest) := ih List.not_mem_nil
      unfold closeLine
      split
      · next more =>
        rw [List.reverse_cons, List.append_assoc]
        exact .returned (by simpa using hline) hrest
      · next hreturn =>
        refine .feed (by simpa using hline) ?_ hrest
        rw [List.getLast?_reverse]
        intro hhead
        obtain ⟨more, hmore⟩ := List.head?_eq_some_iff.mp hhead
        exact hreturn more hmore
    · next hc =>
      have hmore : '\n' ∉ c :: line := by simp [hline, Ne.symm hc]
      have hlined := ih hmore
      rwa [List.reverse_cons, List.append_assoc] at hlined

/-- The lines of a text are what it is cut into. -/
theorem lined_lines (cs : List Char) : Lined cs (lines cs) := lined_gatherLines List.not_mem_nil cs

theorem gatherLines_append (hl : '\n' ∉ l) (line rest : List Char) :
    gatherLines line (l ++ '\n' :: rest) =
      closeLine (l.reverse ++ line) :: gatherLines [] rest := by
  induction l generalizing line with
  | nil => simp [gatherLines]
  | cons c more ih =>
    obtain ⟨hc, hmore⟩ := not_or.mp (List.mem_cons.not.mp hl)
    rw [List.cons_append, gatherLines, if_neg (Ne.symm hc), ih hmore]
    simp

theorem lines_append (hl : '\n' ∉ l) (rest : List Char) :
    lines (l ++ '\n' :: rest) = closeLine l.reverse :: lines rest := by
  rw [lines, gatherLines_append hl, List.append_nil]
  rfl

theorem gatherLines_of_not_mem (hl : '\n' ∉ l) (line : List Char) :
    gatherLines line l = if line = [] ∧ l = [] then [] else [line.reverse ++ l] := by
  induction l generalizing line with
  | nil => cases line <;> simp [gatherLines]
  | cons c more ih =>
    obtain ⟨hc, hmore⟩ := not_or.mp (List.mem_cons.not.mp hl)
    rw [gatherLines, if_neg (Ne.symm hc), ih hmore]
    simp

/-- A text without line feed is one line, unless it is empty. -/
theorem lines_of_not_mem (hl : '\n' ∉ l) : lines l = if l = [] then [] else [l] := by
  rw [lines, gatherLines_of_not_mem hl]
  simp

/-- A carriage return at the end of a line is one of its blanks. -/
theorem trimEnd_closeLine (line : List Char) : trimEnd (closeLine line) = trimEnd line.reverse := by
  unfold closeLine
  split
  · rw [List.reverse_cons]
    exact (trimEnd_append _ (by decide)).symm
  · rfl

end LoadHook.Text
