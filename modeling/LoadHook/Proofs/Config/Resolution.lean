import LoadHook.Config.Search
import LoadHook.Proofs.Path.Parent

/-!
# Which configuration governs a source

The configuration of a source is the regular file of its name in the nearest directory at or above
the directory of the source. A search that fails says why, and there are three reasons: there is no
such file, the nearest one is not text, or its text does not say what a configuration says. A file
further up is not looked at then. Of the text only the compiler options count.
-/
namespace LoadHook.Config

variable {t : FileTree} {name : String} {start d dir p : Path} {ds : List Path}
  {text cs : List Char} {j : Option Json} {options : Options} {config : Config} {e : CompileError}

/-! ## The nearest file -/

/-- The nearest directory at or above another one that has a regular file of a name. Whatever else
has that name is passed over. -/
inductive Nearest (t : FileTree) (name : String) : Path → Path → Prop
  | beside {d : Path} (h : t.isFile (d / Path.ofString name)) : Nearest t name d d
  | above {d up dir : Path} (h : ¬t.isFile (d / Path.ofString name)) (hup : d.parent = some up)
    (hnearest : Nearest t name up dir) : Nearest t name d dir

theorem Nearest.isFile (h : Nearest t name start dir) : t.isFile (dir / Path.ofString name) := by
  induction h with
  | beside h => exact h
  | above _ _ _ ih => exact ih

theorem Nearest.unique {other : Path} (h : Nearest t name start dir)
    (hother : Nearest t name start other) : dir = other := by
  induction h with
  | beside h =>
    cases hother with
    | beside _ => rfl
    | above hnot _ _ => exact absurd h hnot
  | above hnot hup _ ih =>
    cases hother with
    | beside h => exact absurd h hnot
    | above _ hup' hnearest =>
      cases hup.symm.trans hup'
      exact ih hnearest

/-- The search goes upward and stops at the first file. -/
theorem find?_upward (h : Path.Upward start ds) :
    (ds.map (· / Path.ofString name)).find? t.isFile = some p ↔
      ∃ dir, Nearest t name start dir ∧ p = dir / Path.ofString name := by
  induction h with
  | @top d hd =>
    rw [List.map_singleton, List.find?_singleton]
    by_cases hfile : t.isFile (d / Path.ofString name)
    · rw [if_pos hfile, Option.some.injEq]
      refine ⟨fun h => ⟨d, .beside hfile, h.symm⟩, ?_⟩
      rintro ⟨dir, hnearest, rfl⟩
      rw [(Nearest.beside hfile).unique hnearest]
    · rw [if_neg hfile]
      refine ⟨nofun, ?_⟩
      rintro ⟨dir, hnearest, rfl⟩
      cases hnearest with
      | beside h => exact absurd h hfile
      | above _ hup _ => cases hd.symm.trans hup
  | @up d q ds hd _ ih =>
    by_cases hfile : t.isFile (d / Path.ofString name)
    · rw [List.map_cons, List.find?_cons_of_pos hfile, Option.some.injEq]
      refine ⟨fun h => ⟨d, .beside hfile, h.symm⟩, ?_⟩
      rintro ⟨dir, hnearest, rfl⟩
      rw [(Nearest.beside hfile).unique hnearest]
    · rw [List.map_cons, List.find?_cons_of_neg hfile, ih]
      refine ⟨fun ⟨dir, hnearest, hp⟩ => ⟨dir, .above hfile hd hnearest, hp⟩, ?_⟩
      rintro ⟨dir, hnearest, hp⟩
      cases hnearest with
      | beside h => exact absurd h hfile
      | above _ hup hnearest =>
        cases hd.symm.trans hup
        exact ⟨dir, hnearest, hp⟩

theorem find?_eq_some_iff :
    find? t start name = some p ↔
      ∃ dir, Nearest t name start dir ∧ p = dir / Path.ofString name :=
  find?_upward (Path.upward_ancestors start)

theorem find?_eq_none_iff :
    find? t start name = none ↔ ∀ d ∈ start.ancestors, ¬t.isFile (d / Path.ofString name) := by
  simp [find?]

/-- To look beside the source first changes nothing. -/
theorem pathFor?_eq_find? (t : FileTree) (source : Path) (name : String) :
    pathFor? t source name = find? t (searchDir source) name := by
  rw [pathFor?]
  split
  · next hbeside => exact (find?_eq_some_iff.mpr ⟨_, .beside hbeside, rfl⟩).symm
  · rfl

/-- The directories above a path have nothing at their end that could be dropped, so that what is
found in one of them is in just that directory. -/
theorem Nearest.parent_join {source : Path} (h : Nearest t name start dir)
    (hstart : source.parent = some start) (hname : Path.IsEntry name.toList) :
    (dir / Path.ofString name).parent.getD "" = dir := by
  induction h generalizing source with
  | beside _ => exact congrArg (·.getD "") (Path.parent_join_of_parent hstart hname)
  | above _ hup _ ih => exact ih hup

/-! ## What the text says -/

/-- A text without the mark of byte order that may begin it. -/
inductive Unmarked : List Char → List Char → Prop
  | marked (cs : List Char) : Unmarked ('\uFEFF' :: cs) cs
  | plain {cs : List Char} (h : cs.head? ≠ some '\uFEFF') : Unmarked cs cs

/-- What a text says of the compiler options. -/
inductive Says (text : List Char) : Option Json → Prop
  | blank {cs : List Char} (hcs : Unmarked text cs) (hblank : Text.allBlank cs) : Says text none
  | object {cs : List Char} {members : List (String × Json)} (hcs : Unmarked text cs)
    (hblank : ¬Text.allBlank cs) (hobject : Json.Relaxed.parse cs = .ok (.obj members)) :
    Says text (Json.lookup "compilerOptions" members)

/-- A text is neither blank nor an object. -/
def NoObject (text : List Char) : Prop :=
  ∃ cs, Unmarked text cs ∧ ¬Text.allBlank cs ∧
    ∀ members, Json.Relaxed.parse cs ≠ .ok (.obj members)

/-- The options in a directory that are meant by what is said of them. -/
inductive Means (dir : Path) : Option Json → Options → Prop
  | missing : Means dir none .empty
  | null : Means dir (some .null) .empty
  | object (raw : List (String × Json)) : Means dir (some (.obj raw)) (.ofMembers raw dir)

/-- What is said of the options is neither null nor an object. -/
def NoOptions (j : Option Json) : Prop := ∃ k, j = some k ∧ k ≠ .null ∧ ∀ raw, k ≠ .obj raw

theorem unmarked_stripMark (text : List Char) : Unmarked text (stripMark text) := by
  unfold stripMark
  split
  · exact .marked _
  · next hplain =>
    refine .plain fun h => ?_
    obtain ⟨cs, rfl⟩ := List.head?_eq_some_iff.mp h
    exact hplain cs rfl

theorem Unmarked.eq_stripMark (h : Unmarked text cs) : cs = stripMark text := by
  cases h with
  | marked => rfl
  | plain h =>
    unfold stripMark
    split
    · exact absurd rfl h
    · rfl

theorem Says.unique {k : Option Json} (h : Says text j) (hk : Says text k) : j = k := by
  cases h with
  | blank hcs hblank =>
    cases hcs.eq_stripMark
    cases hk with
    | blank => rfl
    | object hcs hnot _ =>
      cases hcs.eq_stripMark
      exact absurd hblank hnot
  | object hcs hnot hparse =>
    cases hcs.eq_stripMark
    cases hk with
    | blank hcs hblank =>
      cases hcs.eq_stripMark
      exact absurd hblank hnot
    | object hcs _ hparse' =>
      cases hcs.eq_stripMark
      cases hparse.symm.trans hparse'
      rfl

/-- A text says something of the options, unless it is neither blank nor an object. -/
theorem says_or_noObject (text : List Char) : (∃ j, Says text j) ∨ NoObject text := by
  have hmark := unmarked_stripMark text
  by_cases hblank : Text.allBlank (stripMark text)
  · exact .inl ⟨_, .blank hmark hblank⟩
  · by_cases hobject : ∃ ms, Json.Relaxed.parse (stripMark text) = .ok (.obj ms)
    · obtain ⟨ms, hms⟩ := hobject
      exact .inl ⟨_, .object hmark hblank hms⟩
    · exact .inr ⟨_, hmark, hblank, not_exists.mp hobject⟩

/-- What a text says of the options stands among its members. -/
theorem Says.members {s : String} (h : Says s.toList j) (path : Path) :
    ∃ ms, members path s = .ok ms ∧ Json.lookup "compilerOptions" ms = j := by
  cases h with
  | blank hcs hblank =>
    rw [hcs.eq_stripMark] at hblank
    exact ⟨[], by rw [Config.members, if_pos hblank], rfl⟩
  | object hcs hblank hparse =>
    rw [hcs.eq_stripMark] at hblank hparse
    exact ⟨_, by rw [Config.members, if_neg hblank, hparse], rfl⟩

theorem NoObject.members {s : String} (h : NoObject s.toList) (path : Path) :
    ∃ m, members path s = .error (.configParse path m) := by
  obtain ⟨cs, hcs, hblank, hno⟩ := h
  rw [hcs.eq_stripMark] at hblank hno
  rw [Config.members, if_neg hblank]
  cases hparse : Json.Relaxed.parse (stripMark s.toList) with
  | error fault => exact ⟨_, rfl⟩
  | ok k =>
    cases k with
    | obj ms => exact absurd hparse (hno ms)
    | _ => exact ⟨_, rfl⟩

theorem Means.unique {other : Options} (h : Means dir j options) (hother : Means dir j other) :
    options = other := by
  cases h <;> cases hother <;> rfl

theorem NoOptions.not_means (h : NoOptions j) : ¬Means dir j options := by
  obtain ⟨k, rfl, hnull, hobject⟩ := h
  rintro (_ | _ | raw)
  · exact hnull rfl
  · exact hobject raw rfl

/-- What is said of the options is what they are, or is at fault. -/
theorem optionsOf_cases (path dir : Path) {ms : List (String × Json)}
    (hj : Json.lookup "compilerOptions" ms = j) :
    (∃ options, Means dir j options ∧ optionsOf path dir ms = .ok options) ∨
      (NoOptions j ∧ ∃ m, optionsOf path dir ms = .error (.configParse path m)) := by
  rw [optionsOf, hj]
  cases j with
  | none => exact .inl ⟨_, .missing, rfl⟩
  | some k =>
    cases k with
    | null => exact .inl ⟨_, .null, rfl⟩
    | obj raw => exact .inl ⟨_, .object raw, rfl⟩
    | _ => exact .inr ⟨⟨_, rfl, nofun, nofun⟩, _, rfl⟩

/-! ## What is read -/

/-- The bytes of a file are no text. -/
def NoText (t : FileTree) (p : Path) : Prop :=
  ∃ bytes, t.readBytes p = .ok bytes ∧ Text.decode bytes = none

theorem readBytes_of_isFile (h : t.isFile p) : ∃ bytes, t.readBytes p = .ok bytes := by
  unfold FileTree.isFile at h
  split at h
  · next hstat => exact ⟨_, by rw [FileTree.readBytes, hstat]; rfl⟩
  · cases h

theorem NoText.readText (h : NoText t p) : t.readText p = .error .notText := by
  obtain ⟨bytes, hbytes, hdecode⟩ := h
  rw [FileTree.readText, hbytes]
  simp [bind, Except.bind, hdecode, throw, throwThe, MonadExceptOf.throw]

/-- A regular file is text or not. -/
theorem readText_of_isFile (h : t.isFile p) : (∃ s, t.readText p = .ok s) ∨ NoText t p := by
  obtain ⟨bytes, hbytes⟩ := readBytes_of_isFile h
  cases hdecode : Text.decode bytes with
  | none => exact .inr ⟨bytes, hbytes, hdecode⟩
  | some s =>
    refine .inl ⟨s, ?_⟩
    rw [FileTree.readText, hbytes]
    simp [bind, Except.bind, hdecode, pure, Except.pure]

/-! ## What resolving comes to -/

section Resolve

variable {w : World} {source : Path} {debug : Bool} {s : String}

theorem fst_resolve (hstart : source.parent = some start) (debug : Bool) :
    (resolve w source name debug).1 =
      match find? w.tree start name with
      | none => .error (.configNotFound source)
      | some path => read w.tree path := by
  rw [resolve, pathFor?_eq_find?, searchDir, hstart, Option.getD_some]
  cases find? w.tree start name <;> rfl

theorem resolve_of_absent (hstart : source.parent = some start) (debug : Bool)
    (h : ∀ d ∈ start.ancestors, ¬w.tree.isFile (d / Path.ofString name)) :
    (resolve w source name debug).1 = .error (.configNotFound source) := by
  rw [fst_resolve hstart, find?_eq_none_iff.mpr h]

theorem resolve_of_nearest (hstart : source.parent = some start) (debug : Bool)
    (h : Nearest w.tree name start dir) :
    (resolve w source name debug).1 = read w.tree (dir / Path.ofString name) := by
  rw [fst_resolve hstart, find?_eq_some_iff.mpr ⟨dir, h, rfl⟩]

theorem read_of_noText (h : NoText t p) : read t p = .error (.configRead p .notText) := by
  rw [read, h.readText]
  rfl

theorem read_of_text (hdir : p.parent.getD "" = dir) (h : t.readText p = .ok s) :
    read t p = (do return ⟨p, dir, ← optionsOf p dir (← members p s)⟩) := by
  rw [read, h, hdir]

theorem read_of_noObject (hdir : p.parent.getD "" = dir) (h : t.readText p = .ok s)
    (hno : NoObject s.toList) : ∃ m, read t p = .error (.configParse p m) := by
  obtain ⟨m, hm⟩ := hno.members p
  exact ⟨m, by rw [read_of_text hdir h, hm]; rfl⟩

theorem read_of_says (hdir : p.parent.getD "" = dir) (h : t.readText p = .ok s)
    (hsaid : Says s.toList j) :
    (∃ options, Means dir j options ∧ read t p = .ok ⟨p, dir, options⟩) ∨
      (NoOptions j ∧ ∃ m, read t p = .error (.configParse p m)) := by
  obtain ⟨ms, hms, hj⟩ := hsaid.members p
  have hread : read t p = (do return ⟨p, dir, ← optionsOf p dir ms⟩) := by
    rw [read_of_text hdir h, hms]
    rfl
  rcases optionsOf_cases p dir hj with ⟨options, hmeans, hoptions⟩ | ⟨hno, m, hm⟩
  · exact .inl ⟨options, hmeans, by rw [hread, hoptions]; rfl⟩
  · exact .inr ⟨hno, m, by rw [hread, hm]; rfl⟩

theorem read_eq_error (h : read t p = .error e) :
    (∃ cause, e = .configRead p cause) ∨ ∃ m, e = .configParse p m := by
  cases hs : t.readText p with
  | error cause =>
    rw [read, hs] at h
    cases h
    exact .inl ⟨cause, rfl⟩
  | ok s =>
    refine .inr ?_
    rcases says_or_noObject s.toList with ⟨j, hj⟩ | hno
    · rcases read_of_says rfl hs hj with ⟨options, -, hread⟩ | ⟨-, m, hread⟩
      · cases hread.symm.trans h
      · cases hread.symm.trans h
        exact ⟨m, rfl⟩
    · obtain ⟨m, hread⟩ := read_of_noObject rfl hs hno
      cases hread.symm.trans h
      exact ⟨m, rfl⟩

/-- There are three ways not to find the configuration of a source. -/
theorem resolve_eq_error (h : (resolve w source name debug).1 = .error e) :
    (∃ p, e = .configNotFound p) ∨ (∃ p cause, e = .configRead p cause) ∨
      ∃ p m, e = .configParse p m := by
  unfold resolve at h
  split at h
  · cases h
    exact .inl ⟨_, rfl⟩
  · exact .inr ((read_eq_error h).imp (fun ⟨cause, he⟩ => ⟨_, cause, he⟩) fun ⟨m, he⟩ => ⟨_, m, he⟩)

/-- What resolving comes to, and when. -/
inductive Outcome (t : FileTree) (source : Path) (name : String) (start : Path) :
    Except CompileError Config → Prop
  | absent (h : ∀ d ∈ start.ancestors, ¬t.isFile (d / Path.ofString name)) :
    Outcome t source name start (.error (.configNotFound source))
  | unread {dir : Path} (hdir : Nearest t name start dir)
      (h : NoText t (dir / Path.ofString name)) :
    Outcome t source name start (.error (.configRead (dir / Path.ofString name) .notText))
  | malformed {dir : Path} {s : String} (m : String) (hdir : Nearest t name start dir)
    (hs : t.readText (dir / Path.ofString name) = .ok s)
    (h : NoObject s.toList ∨ ∃ j, Says s.toList j ∧ NoOptions j) :
    Outcome t source name start (.error (.configParse (dir / Path.ofString name) m))
  | resolved {dir : Path} {s : String} {j : Option Json} {options : Options}
    (hdir : Nearest t name start dir) (hs : t.readText (dir / Path.ofString name) = .ok s)
    (hj : Says s.toList j) (hoptions : Means dir j options) :
    Outcome t source name start (.ok ⟨dir / Path.ofString name, dir, options⟩)

theorem outcome_resolve (hstart : source.parent = some start) (hname : Path.IsEntry name.toList)
    (debug : Bool) : Outcome w.tree source name start (resolve w source name debug).1 := by
  cases hfind : find? w.tree start name with
  | none =>
    have habsent := find?_eq_none_iff.mp hfind
    rw [resolve_of_absent hstart debug habsent]
    exact .absent habsent
  | some path =>
    obtain ⟨dir, hdir, rfl⟩ := find?_eq_some_iff.mp hfind
    have hparent := hdir.parent_join hstart hname
    rw [resolve_of_nearest hstart debug hdir]
    rcases readText_of_isFile hdir.isFile with ⟨s, hs⟩ | hno
    · rcases says_or_noObject s.toList with ⟨j, hj⟩ | hno
      · rcases read_of_says hparent hs hj with ⟨options, hmeans, hread⟩ | ⟨hno, m, hread⟩
        · rw [hread]
          exact .resolved hdir hs hj hmeans
        · rw [hread]
          exact .malformed m hdir hs (.inr ⟨j, hj, hno⟩)
      · obtain ⟨m, hread⟩ := read_of_noObject hparent hs hno
        rw [hread]
        exact .malformed m hdir hs (.inl hno)
    · rw [read_of_noText hno]
      exact .unread hdir hno

theorem resolve_eq_ok_iff (hstart : source.parent = some start)
    (hname : Path.IsEntry name.toList) : (resolve w source name debug).1 = .ok config ↔
      ∃ dir s j options, Nearest w.tree name start dir ∧
        w.tree.readText (dir / Path.ofString name) = .ok s ∧ Says s.toList j ∧
        Means dir j options ∧ config = ⟨dir / Path.ofString name, dir, options⟩ := by
  constructor
  · intro h
    have houtcome := h ▸ outcome_resolve (w := w) hstart hname debug
    cases houtcome with
    | resolved hdir hs hj hoptions => exact ⟨_, _, _, _, hdir, hs, hj, hoptions, rfl⟩
  · rintro ⟨dir, s, j, options, hdir, hs, hj, hoptions, rfl⟩
    rw [resolve_of_nearest hstart debug hdir]
    rcases read_of_says (hdir.parent_join hstart hname) hs hj with ⟨_, hmeans, hread⟩ | ⟨hno, -⟩
    · rw [hread, hmeans.unique hoptions]
    · exact absurd hoptions hno.not_means

theorem resolve_eq_configNotFound_iff (hstart : source.parent = some start)
    (hname : Path.IsEntry name.toList) :
    (resolve w source name debug).1 = .error (.configNotFound p) ↔
      p = source ∧ ∀ d ∈ start.ancestors, ¬w.tree.isFile (d / Path.ofString name) := by
  constructor
  · intro h
    have houtcome := h ▸ outcome_resolve (w := w) hstart hname debug
    cases houtcome with
    | absent hno => exact ⟨rfl, hno⟩
  · rintro ⟨rfl, hno⟩
    exact resolve_of_absent hstart debug hno

theorem resolve_eq_configRead_iff {cause : Cause} (hstart : source.parent = some start)
    (hname : Path.IsEntry name.toList) :
    (resolve w source name debug).1 = .error (.configRead p cause) ↔
      ∃ dir, Nearest w.tree name start dir ∧ p = dir / Path.ofString name ∧ NoText w.tree p ∧
        cause = .notText := by
  constructor
  · intro h
    have houtcome := h ▸ outcome_resolve (w := w) hstart hname debug
    cases houtcome with
    | unread hdir hno => exact ⟨_, hdir, rfl, hno, rfl⟩
  · rintro ⟨dir, hdir, rfl, hno, rfl⟩
    rw [resolve_of_nearest hstart debug hdir, read_of_noText hno]

theorem resolve_eq_configParse_iff (hstart : source.parent = some start)
    (hname : Path.IsEntry name.toList) :
    (∃ m, (resolve w source name debug).1 = .error (.configParse p m)) ↔
      ∃ dir s, Nearest w.tree name start dir ∧ p = dir / Path.ofString name ∧
        w.tree.readText p = .ok s ∧
        (NoObject s.toList ∨ ∃ j, Says s.toList j ∧ NoOptions j) := by
  constructor
  · rintro ⟨m, h⟩
    have houtcome := h ▸ outcome_resolve (w := w) hstart hname debug
    cases houtcome with
    | malformed _ hdir hs hno => exact ⟨_, _, hdir, rfl, hs, hno⟩
  · rintro ⟨dir, s, hdir, rfl, hs, hno⟩
    have hparent := hdir.parent_join hstart hname
    rw [resolve_of_nearest hstart debug hdir]
    rcases hno with hno | ⟨j, hj, hno⟩
    · exact read_of_noObject hparent hs hno
    · rcases read_of_says hparent hs hj with ⟨_, hmeans, -⟩ | ⟨-, hread⟩
      · exact absurd hmeans hno.not_means
      · exact hread

/-- Of the nearest file only what it says of the options counts. -/
theorem read_congr {t' : FileTree} {s' : String} (hdir : p.parent.getD "" = dir)
    (hs : t.readText p = .ok s) (hs' : t'.readText p = .ok s') (hj : Says s.toList j)
    (hj' : Says s'.toList j) : read t p = read t' p := by
  obtain ⟨ms, hms, hlookup⟩ := hj.members p
  obtain ⟨ms', hms', hlookup'⟩ := hj'.members p
  rw [read_of_text hdir hs, read_of_text hdir hs', hms, hms']
  change (do return (⟨p, dir, ← optionsOf p dir ms⟩ : Config)) =
    (do return (⟨p, dir, ← optionsOf p dir ms'⟩ : Config))
  rw [optionsOf, optionsOf, hlookup, hlookup']

/-- Which configuration a source has, and why it has none.

It is sought in the directory of the source and in those above it, whether or not it is looked for
beside the source first. If there is a regular file of the name in one of them, the nearest one
counts, whatever stands in it: it is the configuration, with its own directory, if it is text that
is blank or an object in which the compiler options are missing, null or an object, and the options
are made of these and of the directory, and of nothing else; and otherwise it is said why not. Only
if there is no such file it is said that the configuration is not found. -/
structure ResolutionLaw (w : World) (source : Path) (name : String) (debug : Bool)
    (start : Path) : Prop where
  beside : pathFor? w.tree source name = find? w.tree start name
  resolved_iff : ∀ config, (resolve w source name debug).1 = .ok config ↔
    ∃ dir s j options, Nearest w.tree name start dir ∧
      w.tree.readText (dir / Path.ofString name) = .ok s ∧ Says s.toList j ∧
      Means dir j options ∧ config = ⟨dir / Path.ofString name, dir, options⟩
  notFound_iff : ∀ p, (resolve w source name debug).1 = .error (.configNotFound p) ↔
    p = source ∧ ∀ d ∈ start.ancestors, ¬w.tree.isFile (d / Path.ofString name)
  unread_iff : ∀ p cause, (resolve w source name debug).1 = .error (.configRead p cause) ↔
    ∃ dir, Nearest w.tree name start dir ∧ p = dir / Path.ofString name ∧ NoText w.tree p ∧
      cause = .notText
  malformed_iff : ∀ p, (∃ m, (resolve w source name debug).1 = .error (.configParse p m)) ↔
    ∃ dir s, Nearest w.tree name start dir ∧ p = dir / Path.ofString name ∧
      w.tree.readText p = .ok s ∧
      (NoObject s.toList ∨ ∃ j, Says s.toList j ∧ NoOptions j)
  fails : ∀ e, (resolve w source name debug).1 = .error e →
    (∃ p, e = .configNotFound p) ∨ (∃ p cause, e = .configRead p cause) ∨
      ∃ p m, e = .configParse p m
  alone : ∀ (w' : World) debug' dir s s' j, Nearest w.tree name start dir →
    Nearest w'.tree name start dir → w.tree.readText (dir / Path.ofString name) = .ok s →
    w'.tree.readText (dir / Path.ofString name) = .ok s' → Says s.toList j → Says s'.toList j →
    (resolve w source name debug).1 = (resolve w' source name debug').1

/-- The nearest file of the name governs a source, and none other. -/
theorem resolution_law (w : World) (source : Path) (name : String) (debug : Bool) (start : Path)
    (hstart : source.parent = some start)
    (hname : (Path.ofString name).components = [.normal name.toList]) :
    ResolutionLaw w source name debug start := by
  have hentry : Path.IsEntry name.toList := Path.isEntry_of_components hname
  exact {
    beside := by rw [pathFor?_eq_find?, searchDir, hstart, Option.getD_some]
    resolved_iff := fun _ => resolve_eq_ok_iff hstart hentry
    notFound_iff := fun _ => resolve_eq_configNotFound_iff hstart hentry
    unread_iff := fun _ _ => resolve_eq_configRead_iff hstart hentry
    malformed_iff := fun _ => resolve_eq_configParse_iff hstart hentry
    fails := fun _ => resolve_eq_error
    alone := fun w' debug' dir s s' j hdir hdir' hs hs' hj hj' => by
      rw [resolve_of_nearest hstart debug hdir, resolve_of_nearest hstart debug' hdir',
        read_congr (hdir.parent_join hstart hentry) hs hs' hj hj'] }

end Resolve

/-- A directory by the name of a configuration, a configuration above it, and another one at the
root. -/
def nested (text : String) : World :=
  ⟨⟨[(["p".toList], .dir ⟨0⟩), (["p".toList, "s".toList], .dir ⟨0⟩),
    (["p".toList, "s".toList, "c.json".toList], .dir ⟨0⟩),
    (["p".toList, "c.json".toList], .file (Text.encode text) ⟨0⟩ 0),
    (["c.json".toList], .file .empty ⟨0⟩ 0)], []⟩, [], ⟨0⟩, 1, #[]⟩

theorem nearest_nested (text : String) : Nearest (nested text).tree "c.json" "/p/s" "/p" :=
  .above Bool.false_ne_true (by rfl) (.beside (by rfl))

/-- The directory is passed over, and the configuration at the root does not count, whatever the
text of the nearest one. -/
theorem resolution_law_nested :
    (resolve (nested "\uFEFF \n") "/p/s/a.ts" "c.json" false).1 =
        .ok ⟨"/p/c.json", "/p", .empty⟩ ∧
      ∃ m, (resolve (nested "[]") "/p/s/a.ts" "c.json" true).1 =
        .error (.configParse "/p/c.json" m) := by
  constructor
  · have hlaw : ResolutionLaw (nested "\uFEFF \n") "/p/s/a.ts" "c.json" false "/p/s" :=
      resolution_law _ _ _ _ _ (by rfl) (by rfl)
    exact (hlaw.resolved_iff _).mpr ⟨"/p", "\uFEFF \n", none, .empty, nearest_nested _, by rfl,
      .blank (.marked _) (by rfl), .missing, by rfl⟩
  · have hlaw : ResolutionLaw (nested "[]") "/p/s/a.ts" "c.json" true "/p/s" :=
      resolution_law _ _ _ _ _ (by rfl) (by rfl)
    have hlist : Json.Relaxed.parse "[]".toList = .ok (.arr []) := by rfl
    exact (hlaw.malformed_iff _).mpr ⟨"/p", "[]", nearest_nested _, by rfl, by rfl,
      .inl ⟨_, .plain (by decide), by decide, fun _ h => nomatch hlist.symm.trans h⟩⟩

end LoadHook.Config
