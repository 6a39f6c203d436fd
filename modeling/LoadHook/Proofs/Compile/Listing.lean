import LoadHook.Compile.Emission
import LoadHook.Proofs.Text.Lines

/-!
# Listings

The compiler lists the files that it has written, each behind a mark, and its diagnostics, one on a
line. What is listed so is read back, however the lines end and whatever blanks stand at their ends
or on lines between them. And whatever text is read, each line that is not blank is read as one
file or one diagnostic, and no file has an empty path or one with blanks around it.
-/
namespace LoadHook.Emission

open Text (allBlank trimEnd trim StartsPlain EndsPlain LineEnd Lined)

/-- What a line of a listing is about. -/
inductive Entry where
  | file (path : List Char)
  | diagnostic (text : List Char)
  deriving DecidableEq

namespace Entry

/-- The line of an entry. -/
def text : Entry → List Char
  | .file p => "TSFILE: ".toList ++ p
  | .diagnostic d => d

/-- The path of a file. -/
def path? : Entry → Option (List Char)
  | .file p => some p
  | .diagnostic _ => none

/-- The text of a diagnostic. -/
def diagnostic? : Entry → Option (List Char)
  | .file _ => none
  | .diagnostic d => some d

/-- What fits on a line and is told apart from its mark and from blanks around it. -/
inductive Listable : Entry → Prop
  | file {p : List Char} (hne : p ≠ []) (hline : '\n' ∉ p) (hstart : StartsPlain p)
    (hend : EndsPlain p) : Listable (.file p)
  | diagnostic {d : List Char} (hne : d ≠ []) (hline : '\n' ∉ d) (hend : EndsPlain d)
    (hmark : ¬ "TSFILE: ".toList <+: d) : Listable (.diagnostic d)

end Entry

/-- The line of an entry, or an empty one. -/
def rowText : Option Entry → List Char
  | some e => e.text
  | none => []

/-- A text that lists entries line by line. Between them and at the end there may be blank lines,
and any line may end in blanks. The last line need not be ended. -/
inductive Listing : List Entry → List Char → Prop
  | last (row : Option Entry) {blanks : List Char} (hb : allBlank blanks) (hline : '\n' ∉ blanks) :
    Listing row.toList (rowText row ++ blanks)
  | line (row : Option Entry) {blanks ending rest : List Char} {entries : List Entry}
    (hb : allBlank blanks) (hline : '\n' ∉ blanks) (hend : LineEnd ending)
    (hrest : Listing entries rest) :
    Listing (row.toList ++ entries) (rowText row ++ blanks ++ ending ++ rest)

/-- What a line tells that is not blank. -/
inductive Tells : List Char → Entry → Prop
  | file {before p after : List Char} (hbefore : allBlank before) (hafter : allBlank after)
    (hne : p ≠ []) (hstart : StartsPlain p) (hend : EndsPlain p) :
    Tells ("TSFILE: ".toList ++ before ++ p ++ after) (.file p)
  | diagnostic {d after : List Char} (hafter : allBlank after) (hne : d ≠ []) (hend : EndsPlain d)
    (hmark : ¬ "TSFILE: ".toList <+: d) : Tells (d ++ after) (.diagnostic d)

/-- What is read of a listing with these entries: the files with their kinds, and the
diagnostics. -/
structure Reports (read : Emission × List (List Char)) (entries : List Entry) : Prop where
  artifacts : read.1.artifacts =
    (entries.filterMap Entry.path?).map fun p => ⟨⟨p⟩, ArtifactKind.ofPath ⟨p⟩⟩
  diagnostics : read.2 = entries.filterMap Entry.diagnostic?

variable {cs ds l blanks ending : List Char} {e : Entry} {row : Option Entry} {entries : List Entry}

/-! ## What is read of a line -/

/-- The entry that is read of a line. -/
def Line.told? : Line → Option Entry
  | .written p => some (.file p.chars)
  | .diagnostic text => some (.diagnostic text)
  | .blank => none

/-- The entry of a line. -/
def entryOf (l : List Char) : Option Entry := (Line.ofText l).told?

/-- The entries of a text. -/
def entriesOf (text : List Char) : List Entry := (Text.lines text).filterMap entryOf

theorem reports_ofListing (text : List Char) : Reports (ofListing text) (entriesOf text) := by
  have hpath (x : Line) : x.path? = x.told?.bind fun e => e.path?.map Path.mk := by
    cases x <;> rfl
  have hdiagnostic (x : Line) : x.diagnostic? = x.told?.bind Entry.diagnostic? := by
    cases x <;> rfl
  constructor
  · simp only [ofListing, ofPaths, entriesOf, List.filterMap_map, List.map_filterMap,
      List.filterMap_filterMap]
    refine List.filterMap_congr fun l _ => ?_
    simp only [Function.comp_apply, hpath, entryOf, Option.map_bind]
    congr 1
    funext e
    cases e <;> rfl
  · simp only [ofListing, entriesOf, List.filterMap_map, List.filterMap_filterMap]
    exact List.filterMap_congr fun l _ => hdiagnostic _

/-- Blanks at the end of a line do not count. -/
theorem entryOf_congr (h : trimEnd cs = trimEnd ds) : entryOf cs = entryOf ds := by
  simp only [entryOf, Line.ofText, h]

theorem after?_append (cs ds : List Char) : Text.after? cs (cs ++ ds) = some ds := by
  simp [Text.after?]

theorem after?_of_not_prefix (h : ¬ cs <+: ds) : Text.after? cs ds = none := by
  rw [Text.after?, if_neg (mt List.isPrefixOf_iff_prefix.mp h)]

theorem entryOf_blank (hb : allBlank blanks) : entryOf blanks = none := by
  have htrim : trimEnd blanks = trimEnd [] := Text.trimEnd_of_allBlank hb
  rw [entryOf_congr htrim]
  rfl

/-- Between the mark and the end of a line the path of a file is found. -/
theorem entryOf_file {before p after : List Char} (hbefore : allBlank before)
    (hafter : allBlank after) (hne : p ≠ []) (hstart : StartsPlain p) (hend : EndsPlain p) :
    entryOf ("TSFILE: ".toList ++ before ++ p ++ after) = some (.file p) := by
  have hplain : EndsPlain (fileMark ++ (before ++ p)) :=
    (hend.append before hne).append fileMark (by simp [hne])
  have hstrip : trim (before ++ p) = p := by
    have hdrop : Text.trimStart (before ++ p) = Text.trimStart p :=
      List.dropWhile_append_of_pos fun c hc => Text.isBlank_of_mem hbefore hc
    rw [trim, hdrop, Text.startsPlain_iff.mp hstart, Text.endsPlain_iff.mp hend]
  rw [entryOf_congr (Text.trimEnd_append _ hafter), List.append_assoc]
  change (Line.ofText (fileMark ++ (before ++ p))).told? = _
  simp only [Line.ofText, Text.endsPlain_iff.mp hplain, after?_append, hstrip]
  rfl

theorem entryOf_diagnostic {d after : List Char} (hafter : allBlank after) (hne : d ≠ [])
    (hend : EndsPlain d) (hmark : ¬ "TSFILE: ".toList <+: d) :
    entryOf (d ++ after) = some (.diagnostic d) := by
  have hnone : Text.after? fileMark d = none := after?_of_not_prefix hmark
  have htext : ¬ allBlank d := hend.not_allBlank hne
  rw [entryOf_congr (Text.trimEnd_append _ hafter), entryOf, Line.ofText,
    Text.endsPlain_iff.mp hend, hnone]
  simp only [if_neg htext]
  rfl

/-- What a line tells is read of it. -/
theorem Tells.entryOf_eq (h : Tells l e) : entryOf l = some e := by
  cases h with
  | file hbefore hafter hne hstart hend => exact entryOf_file hbefore hafter hne hstart hend
  | diagnostic hafter hne hend hmark => exact entryOf_diagnostic hafter hne hend hmark

/-- A line that is not blank tells something. -/
theorem exists_tells (h : ¬ allBlank l) : ∃ e, Tells l e := by
  obtain ⟨after, hafter, hl⟩ := Text.exists_trimEnd l
  have hend : EndsPlain (trimEnd l) := Text.endsPlain_trimEnd l
  have hne : trimEnd l ≠ [] := mt Text.allBlank_of_trimEnd h
  generalize trimEnd l = line at hl hend hne
  subst hl
  by_cases hmark : "TSFILE: ".toList <+: line
  · -- the mark ends in a blank, so the line goes on behind it, and not with blanks only
    obtain ⟨path, rfl⟩ := hmark
    have hpath : path ≠ [] := by
      rintro rfl
      exact absurd (hend ' ' (by decide)) (by decide)
    have hlast : EndsPlain path := hend.of_append hpath
    obtain ⟨before, hbefore, hsplit⟩ := Text.exists_trimStart path
    have hstart : StartsPlain (Text.trimStart path) := Text.startsPlain_trimStart path
    have hrest : Text.trimStart path ≠ [] := by
      intro hnil
      rw [hnil, List.append_nil] at hsplit
      exact hlast.not_allBlank hpath (hsplit ▸ hbefore)
    have hlast' : EndsPlain (Text.trimStart path) := (hsplit.symm ▸ hlast).of_append hrest
    have htells := Tells.file hbefore hafter hrest hstart hlast'
    rw [List.append_assoc "TSFILE: ".toList, hsplit] at htells
    exact ⟨_, htells⟩
  · exact ⟨_, .diagnostic hafter hne hend hmark⟩

/-! ## What is read of a text -/

theorem filterMap_entryOf (ls : List (List Char)) :
    List.Forall₂ Tells (ls.filter fun l => !allBlank l) (ls.filterMap entryOf) := by
  induction ls with
  | nil => exact .nil
  | cons l rest ih =>
    by_cases hblank : allBlank l
    · rw [List.filter_cons_of_neg (by simp [hblank]),
        List.filterMap_cons_none (entryOf_blank hblank)]
      exact ih
    · obtain ⟨e, he⟩ := exists_tells hblank
      rw [List.filter_cons_of_pos (by simp [hblank]), List.filterMap_cons_some he.entryOf_eq]
      exact .cons he ih

theorem entriesOf_line (hl : '\n' ∉ l) (hend : LineEnd ending) (rest : List Char) :
    entriesOf (l ++ ending ++ rest) = (entryOf l).toList ++ entriesOf rest := by
  have hfirst {l : List Char} (hl : '\n' ∉ l) :
      entriesOf (l ++ '\n' :: rest) = (entryOf l).toList ++ entriesOf rest := by
    have htrim : trimEnd (Text.closeLine l.reverse) = trimEnd l := by
      rw [Text.trimEnd_closeLine, List.reverse_reverse]
    rw [entriesOf, Text.lines_append hl, List.filterMap_cons, entryOf_congr htrim]
    cases entryOf l <;> rfl
  cases hend with
  | feed => rw [List.append_assoc]; exact hfirst hl
  | returned =>
    have hreturn : entryOf (l ++ ['\r']) = entryOf l :=
      entryOf_congr (Text.trimEnd_append l (by decide))
    have hl' : '\n' ∉ l ++ ['\r'] := by simp [hl]
    rw [← hreturn, ← hfirst hl']
    simp

theorem entriesOf_last (hl : '\n' ∉ l) : entriesOf l = (entryOf l).toList := by
  rw [entriesOf, Text.lines_of_not_mem hl]
  split
  · next hnil =>
    subst hnil
    rfl
  · rw [List.filterMap_cons]
    cases entryOf l <;> rfl

theorem Entry.Listable.tells (h : e.Listable) (hb : allBlank blanks) :
    Tells (e.text ++ blanks) e := by
  cases h with
  | file hne _ hstart hend =>
    have hbefore : allBlank [] := Text.allBlank_nil
    have htells := Tells.file hbefore hb hne hstart hend
    rwa [List.append_nil] at htells
  | diagnostic hne _ hend hmark => exact .diagnostic hb hne hend hmark

theorem Entry.Listable.not_mem (h : e.Listable) : '\n' ∉ e.text := by
  cases h with
  | file _ hline =>
    have hmark : '\n' ∉ "TSFILE: ".toList := by decide
    intro hmem
    exact (List.mem_append.mp hmem).elim hmark hline
  | diagnostic _ hline => exact hline

/-- What is listed on a line is read of it. -/
theorem entryOf_row (hrow : ∀ e ∈ row, e.Listable) (hb : allBlank blanks) :
    entryOf (rowText row ++ blanks) = row := by
  cases row with
  | none => exact entryOf_blank hb
  | some e => exact ((hrow e rfl).tells hb).entryOf_eq

theorem not_mem_row (hrow : ∀ e ∈ row, e.Listable) (hline : '\n' ∉ blanks) :
    '\n' ∉ rowText row ++ blanks := by
  intro hmem
  rcases List.mem_append.mp hmem with hmem | hmem
  · cases row with
    | none => cases hmem
    | some e => exact (hrow e rfl).not_mem hmem
  · exact hline hmem

/-- What is listed is read. -/
theorem Listing.entriesOf_eq {text : List Char} (h : Listing entries text)
    (hentries : ∀ e ∈ entries, e.Listable) : entriesOf text = entries := by
  induction h with
  | last row hb hline =>
    have hrow : ∀ e ∈ row, e.Listable := fun e he => hentries e (Option.mem_toList.mpr he)
    rw [entriesOf_last (not_mem_row hrow hline), entryOf_row hrow hb]
  | line row hb hline hend _ ih =>
    have hrow : ∀ e ∈ row, e.Listable := fun e he =>
      hentries e (List.mem_append_left _ (Option.mem_toList.mpr he))
    rw [entriesOf_line (not_mem_row hrow hline) hend, entryOf_row hrow hb,
      ih fun e he => hentries e (List.mem_append_right _ he)]

theorem plain_of_tells {p : List Char} (h : Tells l (.file p)) :
    p ≠ [] ∧ StartsPlain p ∧ EndsPlain p := by
  cases h with
  | file _ _ hne hstart hend => exact ⟨hne, hstart, hend⟩

/-- What a listing lists is what is read of it; and whatever is read, it is what the lines tell that
are not blank, one thing each. -/
theorem listing_law :
    (∀ entries text, Listing entries text → (∀ e ∈ entries, e.Listable) →
      Reports (ofListing text) entries) ∧
    ∀ text, ∃ ls entries, Lined text ls ∧
      List.Forall₂ Tells (ls.filter fun l => !allBlank l) entries ∧
      Reports (ofListing text) entries ∧
      ∀ a ∈ (ofListing text).1.artifacts,
        a.path.chars ≠ [] ∧ StartsPlain a.path.chars ∧ EndsPlain a.path.chars := by
  constructor
  · intro entries text hlisting hentries
    rw [← hlisting.entriesOf_eq hentries]
    exact reports_ofListing text
  · intro text
    have hreports := reports_ofListing text
    have htells := filterMap_entryOf (Text.lines text)
    refine ⟨_, _, Text.lined_lines text, htells, hreports, ?_⟩
    intro a ha
    rw [hreports.artifacts] at ha
    obtain ⟨p, hp, rfl⟩ := List.mem_map.mp ha
    obtain ⟨e, he, hpath⟩ := List.mem_filterMap.mp hp
    cases e with
    | diagnostic d => cases hpath
    | file q =>
      cases hpath
      obtain ⟨l, -, hl⟩ := List.mem_filterMap.mp he
      by_cases hblank : allBlank l
      · rw [entryOf_blank hblank] at hl
        cases hl
      · obtain ⟨e, he⟩ := exists_tells hblank
        cases he.entryOf_eq.symm.trans hl
        exact plain_of_tells he

/-- A listing with either end of a line, a blank line, and an end that is left open. -/
theorem reports_mixed : Reports (ofListing "a.ts(1,5): error\t\r\n \nTSFILE: /o/a.js".toList)
    [.diagnostic "a.ts(1,5): error".toList, .file "/o/a.js".toList] := by
  have hlast : Listing [.file "/o/a.js".toList] "TSFILE: /o/a.js".toList :=
    .last (some (.file "/o/a.js".toList)) Text.allBlank_nil List.not_mem_nil
  have hblank : Listing [.file "/o/a.js".toList] " \nTSFILE: /o/a.js".toList :=
    .line none (by decide : allBlank [' ']) (by decide) .feed hlast
  have hlisting : Listing [.diagnostic "a.ts(1,5): error".toList, .file "/o/a.js".toList]
      "a.ts(1,5): error\t\r\n \nTSFILE: /o/a.js".toList :=
    .line (some (.diagnostic "a.ts(1,5): error".toList)) (by decide : allBlank ['\t'])
      (by decide) .returned hblank
  refine listing_law.1 _ _ hlisting ?_
  intro e he
  simp only [List.mem_cons, List.not_mem_nil, or_false] at he
  rcases he with rfl | rfl
  · refine .diagnostic (by decide) (by decide) ?_ (by decide)
    rintro c ⟨⟩
    rfl
  · refine .file (by decide) (by decide) ?_ ?_
    all_goals
      rintro c ⟨⟩
      rfl

end LoadHook.Emission
