import LoadHook.Proofs.Json.Skipping
import LoadHook.Settings.Reader

/-!
# Settings and their texts

An object tells settings if each field stands in it once with a text of its value, in any order and
among members of any other names; only a compiler that there is not may be left out. Reading keeps
what has been told in a draft, which is at every member the settings cut down to the fields seen so
far; so at the end of the object it is the settings. The compact text tells the settings as well.
-/
namespace LoadHook.Settings

open Json (Blank Entry Quotes Takes Wellformed Writes)
open Json.Cursor (EndsNumber)
open Text (Utf16)

/-- Members of an object that tell settings: a field with any text of its value, and only once;
anything else with any well-formed value. -/
structure Tells (s : Settings) (members : List (String × Entry)) : Prop where
  fits : ∀ m ∈ members, m.2.Fits (some (Utf16.ofString m.1))
  told : ∀ m ∈ members, ∀ j, (m.1, j) ∈ s.fields → Writes j m.2.text
  other : ∀ m ∈ members, (∀ j, (m.1, j) ∉ s.fields) → Wellformed m.2.text
  once : members.Pairwise fun m n => m.1 = n.1 → ∀ j, (m.1, j) ∉ s.fields
  complete : ∀ f ∈ s.fields, (∃ m ∈ members, m.1 = f.1) ∨ f = ("compiler", .null)

/-- The texts of settings. -/
inductive Spells (s : Settings) : List Char → Prop where
  | mk {front blank back : List Char} {members : List (String × Entry)} (hfront : Blank front)
      (hblank : Blank blank) (hback : Blank back) (h : Tells s members) :
      Spells s (front ++ '{' :: (Entry.between blank (members.map Prod.snd) ++ '}' :: back))

/-! ## Fields -/

namespace Field

/-- The value of a field. -/
def value (s : Settings) : Field → Json
  | .configFileName => .str s.configFileName
  | .extensions => .arr (s.extensions.map .str)
  | .compiler => .ofString? (s.compiler.map Path.text)
  | .debugVar => .str s.debugVar

theorem mem_fields {s : Settings} {name : String} {j : Json} :
    (name, j) ∈ s.fields ↔ ∃ f : Field, name = f.name ∧ j = f.value s := by
  constructor
  · intro h
    simp only [fields, List.mem_cons, List.not_mem_nil, or_false, Prod.mk.injEq] at h
    rcases h with h | h | h | h
    · exact ⟨.configFileName, h⟩
    · exact ⟨.extensions, h⟩
    · exact ⟨.compiler, h⟩
    · exact ⟨.debugVar, h⟩
  · rintro ⟨f, rfl, rfl⟩
    cases f <;> simp [fields, name, value]

theorem ofName?_eq_some {name : String} {f : Field} : ofName? name = some f ↔ name = f.name := by
  constructor
  · intro h
    rw [ofName?] at h
    have hname := List.find?_some h
    exact (eq_of_beq hname).symm
  · rintro rfl
    cases f <;> decide

theorem ofName?_eq_none {name : String} : ofName? name = none ↔ ∀ f : Field, name ≠ f.name := by
  rw [← not_iff_not, ← ne_eq, Option.ne_none_iff_exists']
  simp [ofName?_eq_some]

end Field

/-! ## Drafts -/

/-- The settings cut down to the fields that have been seen. -/
def drafted (s : Settings) (seen : Field → Bool) : Draft where
  configFileName := if seen .configFileName then some s.configFileName else none
  extensions := if seen .extensions then some s.extensions else none
  compiler := if seen .compiler then some s.compiler else none
  debugVar := if seen .debugVar then some s.debugVar else none

variable {s : Settings} {seen : Field → Bool} {f : Field}

theorem has_drafted (s : Settings) (seen : Field → Bool) (f : Field) :
    (drafted s seen).has f = seen f := by
  cases f <;> simp only [drafted, Draft.has] <;> split <;> simp_all

/-- A draft is finished as the settings if each field has been seen, but for a compiler that there
is not. -/
theorem finish_drafted (h : ∀ f, seen f ∨ f = .compiler ∧ s.compiler = none) :
    (drafted s seen).finish = .ok s := by
  have hseen : ∀ f, f ≠ .compiler → seen f = true := fun f hf =>
    (h f).resolve_right fun hc => hf hc.1
  have hcompiler : (if seen .compiler then some s.compiler else none).getD none = s.compiler := by
    rcases h .compiler with hc | ⟨-, hc⟩
    · rw [if_pos hc, Option.getD_some]
    · rw [hc]
      split <;> rfl
  simp only [drafted, Draft.finish, hseen .configFileName nofun, hseen .extensions nofun,
    hseen .debugVar nofun, if_true, hcompiler]
  rfl

/-! ## Values -/

variable {c : Json.Cursor} {rest blank text : List Char}

theorem takes_readText {t expected : String} (h : Writes (.str t) text) (hblank : Blank blank)
    (hc : c.rest = blank ++ (text ++ rest)) : Takes (readText c expected) t rest := by
  cases h with
  | str hbody =>
    have hskip := Json.Cursor.skipSpace_of_blank hblank (by decide) hc
    simp only [readText, Json.Cursor.peek_of_rest hskip]
    refine Json.Cursor.takes_string_of_quotes hbody ?_
    simpa using Json.Cursor.next_of_rest hskip

/-- The texts of a list are read up to its end. -/
theorem takes_readTexts {items : List (Json × Entry)} {texts : List String} {first : Bool} {n : Nat}
    (hblank : Blank blank) (htexts : items.map Prod.fst = texts.map .str)
    (hfits : ∀ i ∈ items, i.2.Fits none) (h : ∀ i ∈ items, Writes i.1 i.2.text)
    (hn : items.length < n)
    (hc : c.rest = Entry.remaining first blank (items.map Prod.snd) ++ ']' :: rest) :
    Takes (readTexts n c first) texts rest := by
  induction items generalizing c n first blank texts with
  | nil =>
    obtain ⟨n, rfl⟩ : ∃ m, n = m + 1 := ⟨n - 1, by omega⟩
    have hnil : texts = [] := by simpa using htexts.symm
    subst hnil
    rw [readTexts]
    refine (Json.Cursor.takes_nextItem_stop hblank hc).bind fun c hc => ?_
    exact (Json.Cursor.takes_listEnd hc).bind fun c hc => .ok hc
  | cons i items ih =>
    obtain ⟨n, rfl⟩ : ∃ m, n = m + 1 := ⟨n - 1, by omega⟩
    obtain ⟨t, texts, rfl, ht, htexts⟩ : ∃ t ts, texts = t :: ts ∧ i.1 = .str t ∧
        items.map Prod.fst = ts.map .str := by
      cases texts with
      | nil => cases htexts
      | cons t texts => exact ⟨t, texts, rfl, (List.cons.inj htexts).1, (List.cons.inj htexts).2⟩
    have hi := h i List.mem_cons_self
    have hfit := hfits i List.mem_cons_self
    simp only [List.map_cons, Entry.remaining, List.append_assoc] at hc
    rw [readTexts]
    refine (Json.Cursor.takes_nextItem hblank hfit hi.wellformed (by simpa using hc)).bind
      fun c hc => ?_
    refine (takes_readText (ht ▸ hi) Json.blank_nil hc).bind fun c hc => ?_
    refine (ih hfit.after htexts (fun j hj => hfits j (List.mem_cons_of_mem i hj))
      (fun j hj => h j (List.mem_cons_of_mem i hj)) (by simpa using hn) hc).bind fun c hc => ?_
    exact .ok hc

theorem takes_read_extensions (h : Writes (.arr (s.extensions.map .str)) text)
    (hblank : Blank blank) (hc : c.rest = blank ++ (text ++ rest)) :
    Takes ((drafted s seen).read c .extensions)
      (drafted s fun g => g = .extensions || seen g) rest := by
  generalize hj : Json.arr (s.extensions.map .str) = j at h
  cases h with
  | arr inner items hinner hfits h =>
    have htexts : items.map Prod.fst = s.extensions.map .str := (Json.arr.inj hj).symm
    have hskip := Json.Cursor.skipSpace_of_blank hblank (by decide) hc
    have hnext := Json.Cursor.next_of_rest hskip
    have hlength : items.length < c.skipSpace.rest.length + 1 := by
      have hle := Entry.length_le_remaining true inner
        (List.forall_mem_map.mpr fun i hi => (h i hi).wellformed : ∀ e ∈ items.map Prod.snd, _)
      rw [← Entry.between_eq, List.length_map] at hle
      rw [hskip]
      simp only [List.length_cons, List.length_append, List.append_eq]
      omega
    simp only [Draft.read, Json.Cursor.peek_of_rest hskip]
    rw [Entry.between_eq] at hnext
    exact (takes_readTexts hinner htexts hfits h hlength (by simpa using hnext)).bind
      fun c hc => .ok hc
  | _ => cases hj

theorem takes_read_compiler (h : Writes (.ofString? (s.compiler.map Path.text)) text)
    (hblank : Blank blank) (hc : c.rest = blank ++ (text ++ rest)) :
    Takes ((drafted s seen).read c .compiler)
      (drafted s fun g => g = .compiler || seen g) rest := by
  -- what is read is the compiler of the settings in either case
  have hdraft : ∀ compiler, s.compiler = compiler →
      { drafted s seen with compiler := some compiler } =
        drafted s fun g => g = .compiler || seen g := by
    rintro _ rfl
    rfl
  cases hcompiler : s.compiler with
  | none =>
    rw [hcompiler] at h
    cases h
    have hskip := Json.Cursor.skipSpace_of_blank hblank (by decide) hc
    simp only [Draft.read, Json.Cursor.peek_of_rest hskip]
    refine (Json.Cursor.takes_word _ (Json.Cursor.next_of_rest hskip)).bind fun c hc => ?_
    rw [← hdraft none hcompiler]
    exact .ok hc
  | some p =>
    rw [hcompiler] at h
    obtain ⟨body, rfl⟩ : ∃ body, text = '"' :: body := by
      cases h
      exact ⟨_, rfl⟩
    have hskip : c.skipSpace.rest = ('"' :: body) ++ rest :=
      Json.Cursor.skipSpace_of_blank hblank (by decide) hc
    simp only [Draft.read, Json.Cursor.peek_of_rest hskip]
    refine (takes_readText h Json.blank_nil hskip).bind fun c hc => ?_
    rw [← hdraft (some p) hcompiler, Path.ofString_text]
    exact .ok hc

/-- Reading the value of a field tells the field. -/
theorem takes_read (h : Writes (f.value s) text) (hblank : Blank blank)
    (hc : c.rest = blank ++ (text ++ rest)) :
    Takes ((drafted s seen).read c f) (drafted s fun g => g = f || seen g) rest := by
  cases f with
  | configFileName =>
    rw [Draft.read]
    exact (takes_readText h hblank hc).bind fun c hc => .ok hc
  | extensions => exact takes_read_extensions h hblank hc
  | compiler => exact takes_read_compiler h hblank hc
  | debugVar =>
    rw [Draft.read]
    exact (takes_readText h hblank hc).bind fun c hc => .ok hc

/-! ## Members -/

/-- Members that tell the fields not yet seen. -/
structure Outstanding (s : Settings) (seen : Field → Bool) (members : List (String × Entry)) :
    Prop where
  fits : ∀ m ∈ members, m.2.Fits (some (Utf16.ofString m.1))
  told : ∀ m ∈ members, ∀ f : Field, m.1 = f.name → Writes (f.value s) m.2.text
  other : ∀ m ∈ members, (∀ f : Field, m.1 ≠ f.name) → Wellformed m.2.text
  once : members.Pairwise fun m n => m.1 = n.1 → ∀ f : Field, m.1 ≠ f.name
  fresh : ∀ m ∈ members, ∀ f : Field, m.1 = f.name → seen f = false
  complete : ∀ f, seen f ∨ (∃ m ∈ members, m.1 = f.name) ∨ f = .compiler ∧ s.compiler = none

theorem Tells.outstanding {members : List (String × Entry)} (h : Tells s members) :
    Outstanding s (fun _ => false) members where
  fits := h.fits
  told m hm f hf := h.told m hm _ (Field.mem_fields.mpr ⟨f, hf, rfl⟩)
  other m hm hf := h.other m hm fun j hj => by
    obtain ⟨f, hname, -⟩ := Field.mem_fields.mp hj
    exact hf f hname
  once := h.once.imp fun hmn heq f hf => hmn heq _ (Field.mem_fields.mpr ⟨f, hf, rfl⟩)
  fresh _ _ _ _ := rfl
  complete f := by
    rcases h.complete _ (Field.mem_fields.mpr ⟨f, rfl, rfl⟩) with hm | hnone
    · exact .inr (.inl hm)
    · refine .inr (.inr ?_)
      obtain ⟨hname, hvalue⟩ := Prod.mk.inj hnone
      have hf : f = .compiler := by
        cases f <;> first | rfl | exact absurd hname (by decide)
      subst hf
      refine ⟨rfl, ?_⟩
      cases hcompiler : s.compiler with
      | none => rfl
      | some p =>
        rw [Field.value, hcompiler] at hvalue
        cases hvalue

namespace Outstanding

variable {m : String × Entry} {members : List (String × Entry)}

theorem wellformed (h : Outstanding s seen members) :
    ∀ e ∈ members.map Prod.snd, Wellformed e.text := by
  refine List.forall_mem_map.mpr fun m hm => ?_
  by_cases hf : ∃ f : Field, m.1 = f.name
  · obtain ⟨f, hf⟩ := hf
    exact (h.told m hm f hf).wellformed
  · exact h.other m hm (not_exists.mp hf)

/-- A member of another name is passed over. -/
theorem tail_of_other (h : Outstanding s seen (m :: members)) (hm : ∀ f : Field, m.1 ≠ f.name) :
    Outstanding s seen members where
  fits n hn := h.fits n (List.mem_cons_of_mem m hn)
  told n hn := h.told n (List.mem_cons_of_mem m hn)
  other n hn := h.other n (List.mem_cons_of_mem m hn)
  once := h.once.tail
  fresh n hn := h.fresh n (List.mem_cons_of_mem m hn)
  complete f := by
    rcases h.complete f with hseen | ⟨n, hn, hf⟩ | hnone
    · exact .inl hseen
    · rcases List.mem_cons.mp hn with rfl | hn
      · exact absurd hf (hm f)
      · exact .inr (.inl ⟨n, hn, hf⟩)
    · exact .inr (.inr hnone)

/-- A field that has been read does not come again. -/
theorem tail_of_field (h : Outstanding s seen (m :: members)) (hm : m.1 = f.name) :
    Outstanding s (fun g => g = f || seen g) members where
  fits n hn := h.fits n (List.mem_cons_of_mem m hn)
  told n hn := h.told n (List.mem_cons_of_mem m hn)
  other n hn := h.other n (List.mem_cons_of_mem m hn)
  once := h.once.tail
  fresh n hn g hg := by
    have hne : g ≠ f := by
      rintro rfl
      exact (List.pairwise_cons.mp h.once).1 n hn (hm.trans hg.symm) g hm
    simpa [hne] using h.fresh n (List.mem_cons_of_mem m hn) g hg
  complete g := by
    by_cases hg : g = f
    · exact .inl (by simp [hg])
    rcases h.complete g with hseen | ⟨n, hn, hname⟩ | hnone
    · exact .inl (by simp [hseen])
    · rcases List.mem_cons.mp hn with rfl | hn
      · have heq : Field.ofName? n.1 = some g := Field.ofName?_eq_some.mpr hname
        rw [Field.ofName?_eq_some.mpr hm] at heq
        exact absurd (Option.some.inj heq).symm hg
      · exact .inr (.inl ⟨n, hn, hname⟩)
    · exact .inr (.inr hnone)

/-- The members of an object are read up to its end, and what they tell is the settings.

The induction is on the members. The draft is at each of them the settings cut down to the fields
seen before it, since a field is told rightly and once, and any other member leaves it alone. -/
theorem takes_readMembers {first : Bool} {n : Nat} (h : Outstanding s seen members)
    (hblank : Blank blank) (hn : members.length < n)
    (hc : c.rest = Entry.remaining first blank (members.map Prod.snd) ++ '}' :: rest) :
    Takes (readMembers n (drafted s seen) c first) s rest := by
  induction members generalizing c n first blank seen with
  | nil =>
    obtain ⟨n, rfl⟩ : ∃ m, n = m + 1 := ⟨n - 1, by omega⟩
    have hfinish : (drafted s seen).finish = .ok s := finish_drafted fun f => by
      simpa using h.complete f
    rw [readMembers]
    refine (Json.Cursor.takes_nextName_stop hblank hc).bind fun c hc => ?_
    refine (Json.Cursor.takes_objectEnd hc).bind fun c hc => ?_
    simp only [hfinish]
    exact .ok hc
  | cons m members ih =>
    obtain ⟨n, rfl⟩ : ∃ m, n = m + 1 := ⟨n - 1, by omega⟩
    have hfit := h.fits m List.mem_cons_self
    have hlength : members.length < n := by simpa using hn
    simp only [List.map_cons, Entry.remaining, List.append_assoc] at hc
    obtain ⟨body, back, hbody, hback, hname⟩ :=
      Json.Cursor.takes_nextName hblank hfit (by simpa using hc)
    have hends : EndsNumber
        (Entry.remaining false m.2.after (members.map Prod.snd) ++ '}' :: rest) :=
      Json.Cursor.endsNumber_remaining true hfit.after
    rw [readMembers]
    refine hname.bind fun c hc => ?_
    refine (Json.Cursor.takes_string_of_quotes hbody hc).bind fun c hc => ?_
    cases hfield : Field.ofName? m.1 with
    | none =>
      have hother := Field.ofName?_eq_none.mp hfield
      have hword := h.other m List.mem_cons_self hother
      simp only [hfield]
      refine (Json.Cursor.takes_colon hback hc).bind fun c hc => ?_
      refine (Json.Cursor.takes_skip hword hfit.before hends hc).bind fun c hc => ?_
      exact ih (h.tail_of_other hother) hfit.after hlength hc
    | some f =>
      have hm := Field.ofName?_eq_some.mp hfield
      have hnew : (drafted s seen).has f = false :=
        (has_drafted s seen f).trans (h.fresh m List.mem_cons_self f hm)
      simp only [hfield, hnew, Bool.false_eq_true, if_false]
      refine (Json.Cursor.takes_colon hback hc).bind fun c hc => ?_
      refine (takes_read (h.told m List.mem_cons_self f hm) hfit.before hc).bind fun c hc => ?_
      exact ih (h.tail_of_field hm) hfit.after hlength hc

end Outstanding

/-! ## Texts -/

/-- A text of settings is read as the settings. -/
theorem Spells.parse_eq {text : String} (h : Spells s text.toList) : parse text = .ok s := by
  rw [parse]
  generalize text.toList = cs at h
  obtain @⟨front, blank, back, members, hfront, hblank, hback, h⟩ := h
  rw [Entry.between_eq]
  refine Json.Cursor.finish_of_takes ?_ hback
  have hskip := Json.Cursor.skipSpace_of_blank hfront (by decide) (Json.Cursor.rest_start
    (front ++ '{' :: (Entry.remaining true blank (members.map Prod.snd) ++ '}' :: back)))
  have hnext := Json.Cursor.next_of_rest hskip
  have hlength := Entry.length_le_remaining true blank h.outstanding.wellformed
  rw [List.length_map] at hlength
  simp only [readValue, Json.Cursor.peek_of_rest hskip]
  refine h.outstanding.takes_readMembers hblank ?_ hnext
  rw [hskip, List.length_cons, List.length_append]
  omega

theorem Field.exact_value (s : Settings) (f : Field) : Json.Exact (f.value s) := by
  cases f with
  | configFileName => exact .str _
  | extensions => exact .arr _ (List.forall_mem_map.mpr fun t _ => .str t)
  | compiler =>
    rw [Field.value]
    cases s.compiler with
    | none => exact .null
    | some p => exact .str p.text
  | debugVar => exact .str _

/-- The fields with their values tell the settings. -/
theorem tells_fields (s : Settings) : Tells s (s.fields.map fun m => (m.1, Entry.ofMember m)) where
  fits := List.forall_mem_map.mpr fun m _ => Entry.fits_named m.1 m.2.chars
  told := List.forall_mem_map.mpr fun m hm j hj => by
    obtain ⟨f, hf, hvalue⟩ := Field.mem_fields.mp hm
    obtain ⟨g, hg, rfl⟩ := Field.mem_fields.mp hj
    have heq : some f = some g := by
      rw [← Field.ofName?_eq_some.mpr hf, ← Field.ofName?_eq_some.mpr hg]
    cases heq
    have hwrites := (Field.exact_value s f).writes
    rw [← hvalue] at hwrites ⊢
    exact hwrites
  other := List.forall_mem_map.mpr fun m hm hj => absurd hm (hj m.2)
  once := by
    refine List.pairwise_map.mpr ?_
    have hnames : (s.fields.map Prod.fst).Pairwise (· ≠ ·) := by
      change ["config_file_name", "extensions", "compiler", "debug_var"].Pairwise (· ≠ ·)
      decide
    exact (List.pairwise_map.mp hnames).imp fun hne heq => absurd heq hne
  complete m hm := .inl ⟨_, List.mem_map_of_mem hm, rfl⟩

/-- The compact text is one of the texts of the settings. -/
theorem spells_text (s : Settings) : Spells s s.text.toList := by
  have h := Spells.mk Json.blank_nil Json.blank_nil Json.blank_nil (tells_fields s)
  rw [text, Json.toList_compact, Json.chars, Entry.memberChars_eq]
  simpa [Function.comp_def] using h

/-- A text in quotes. -/
def quoted (t : String) : String := String.ofList (Json.quote t.toList)

theorem itemChars_str (texts : List String) :
    Json.itemChars (texts.map .str) = (",".intercalate (texts.map quoted)).toList ++ [']'] := by
  rw [String.toList_intercalate]
  induction texts with
  | nil => rfl
  | cons t texts ih =>
    cases texts with
    | nil => simp [Json.itemChars, Json.chars, quoted, List.intercalate]
    | cons u texts =>
      simp only [List.map_cons] at ih ⊢
      rw [Json.itemChars, ih, List.intercalate_cons_cons]
      simp [Json.chars, quoted]

/-- The compact text, in full. -/
theorem text_eq (s : Settings) : s.text = "\x7b\"config_file_name\":" ++ quoted s.configFileName ++
    ",\"extensions\":[" ++ ",".intercalate (s.extensions.map quoted) ++
    "],\"compiler\":" ++ s.compiler.elim "null" (fun p => quoted p.text) ++
    ",\"debug_var\":" ++ quoted s.debugVar ++ "\x7d" := by
  have hcompiler : (Json.ofString? (s.compiler.map Path.text)).chars =
      (s.compiler.elim "null" fun p => quoted p.text).toList := by
    cases s.compiler <;> simp [Json.ofString?, Json.chars, quoted]
  have hquoted : ∀ t, (quoted t).toList = Json.quote t.toList := fun t => String.toList_ofList
  rw [← String.toList_inj, Settings.text, Json.toList_compact]
  simp only [fields, Json.chars, Json.memberChars, itemChars_str, hcompiler, String.toList_append,
    hquoted, List.append_assoc, List.cons_append, List.nil_append]
  rfl

/-- How settings are written and read.

They are written as the four members in their order without any white space, each string in the
shortest of the ways to write it between quotes. This text is one of those that spell the settings,
and each of these is read as the settings: the members in any order and with any white space,
strings with any escapes, members of other names and any well-formed values between them, and no
member for a compiler that there is not. -/
structure ReadingLaw (s : Settings) : Prop where
  written : s.text = "\x7b\"config_file_name\":" ++ quoted s.configFileName ++
    ",\"extensions\":[" ++ ",".intercalate (s.extensions.map quoted) ++
    "],\"compiler\":" ++ s.compiler.elim "null" (fun p => quoted p.text) ++
    ",\"debug_var\":" ++ quoted s.debugVar ++ "\x7d"
  escaped : ∀ t : String, ∃ body, (quoted t).toList = '"' :: (body ++ ['"']) ∧
    Quotes (Utf16.ofString t) body ∧
    ∀ other, Quotes (Utf16.ofString t) other → body.length ≤ other.length
  spelled : Spells s s.text.toList
  read_back : parse s.text = .ok s
  read : ∀ text : String, Spells s text.toList → parse text = .ok s

theorem reading_law (s : Settings) : ReadingLaw s where
  written := text_eq s
  escaped t := by
    refine ⟨t.toList.flatMap Json.escapeChar, by simp [quoted, Json.quote],
      Json.quotes_flatMap_escapeChar t.toList, fun other h => ?_⟩
    exact ((Json.spelled_of_quotes h).1 t.toList rfl).length_le
  spelled := spells_text s
  read_back := (spells_text s).parse_eq
  read _ h := h.parse_eq

/-- Another order, white space, escapes, and members that nobody asks for. -/
example :
    parse ("\x7b \"x\" : [1e999, \x7b\"y\" : \"\\ud800\"\x7d], \"debug_var\":\"D\"," ++
      "\"\\u0065xtensions\" : [ \"t\\u0073\" ], \"config_file_name\" : \"c\\/d\"\x7d") =
      .ok ⟨"c/d", ["ts"], none, "D"⟩ := by
  cbv

end LoadHook.Settings
