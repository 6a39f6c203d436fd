import LoadHook.Proofs.Compile.Project
import LoadHook.Proofs.Config.Delivery
import LoadHook.Proofs.Files.Writing
import LoadHook.Proofs.Hook.Toggle
import LoadHook.Proofs.Path.Parent

/-!
# The unit of a compilation

Three directories are in play when a source is compiled: the one that the caller works in, the one
that the compiler is started in, and the one of the project. The compiler takes the path of the
project from its own directory, and the path of the source from that of the project, while both are
written as the caller has them. So they mean the same to the compiler if they are absolute, which
they are for an absolute source. For a relative one they do only if the directory of the
configuration is the one that the caller works in.
-/
namespace LoadHook

/-! ## Files have directories above them -/

namespace FileTree

variable {t : FileTree} {p : Path} {names : List Name} {directory : Place} {follow : Bool}

theorem walkNames_stay (h : ∀ s ∈ names, s = ['.']) :
    t.walkNames follow directory names =
      .spot (.found directory ((t.node? directory).getD (.dir ⟨0⟩))) := by
  induction names with
  | nil => rfl
  | cons s rest ih =>
    rw [walkNames, if_pos (h s List.mem_cons_self), ih fun u hu => h u (List.mem_cons_of_mem s hu)]

/-- There is a directory above every file. -/
theorem parent_of_isFile (hp : p.isAbsolute) (h : t.isFile p) : ∃ q, p.parent = some q := by
  cases hparent : p.parent with
  | some q => exact ⟨q, rfl⟩
  | none =>
    have hnames : ∀ s ∈ namesOf p, s = ['.'] := by
      intro s hs
      rcases List.mem_append.mp hs with hs | hs
      · obtain ⟨hmem, hne⟩ := List.mem_filter.mp hs
        exact (Path.void_of_parent hp hparent s hmem).resolve_left (by simpa using hne)
      · split at hs
        · exact List.mem_singleton.mp hs
        · cases hs
    -- so the path leads to the root
    unfold isFile at h
    split at h
    · next hs =>
      have hwalk := walk_of_locate (locate_of_stat hs)
      rw [if_pos hp] at hwalk
      rcases walk_eq_ok_iff.mp hwalk with hspot | ⟨_, _, _, _, -, hlink, -⟩
      · cases (walkNames_stay hnames).symm.trans hspot
      · cases (walkNames_stay hnames).symm.trans hlink
    · cases h

end FileTree

/-! ## The directory of a configuration -/

namespace Config

variable {w : World} {source d : Path} {name : String} {debug : Bool} {config : Config}

/-- The compiler options as they stand in a configuration; none where it has no object of them. -/
def rawOptions (t : FileTree) (path : Path) : List (String × Json) :=
  match t.readText path with
  | .error _ => []
  | .ok text =>
    match members path text with
    | .error _ => []
    | .ok ms =>
      match Json.lookup "compilerOptions" ms with
      | some (.obj raw) => raw
      | _ => []

/-- What the configuration of a source is. -/
structure Governs (t : FileTree) (source : Path) (name : String) (config : Config) : Prop where
  file : t.isFile config.path
  above : ∃ d ∈ (searchDir source).ancestors, config.path = d / Path.ofString name
  dir : config.dir = config.path.parent.getD ""
  options : config.options = .ofMembers (rawOptions t config.path) config.dir

theorem options_of_read {t : FileTree} {path : Path} (h : read t path = .ok config) :
    config.path = path ∧ config.dir = path.parent.getD "" ∧
      config.options = .ofMembers (rawOptions t path) config.dir := by
  dsimp only [read] at h
  unfold rawOptions
  cases htext : t.readText path with
  | error cause =>
    rw [htext] at h
    cases h
  | ok text =>
    rw [htext] at h
    cases hmembers : members path text with
    | error e =>
      simp only [hmembers] at h
      cases h
    | ok ms =>
      simp only [hmembers, bind, Except.bind, optionsOf] at h ⊢
      cases hraw : Json.lookup "compilerOptions" ms with
      | none =>
        rw [hraw] at h
        cases h
        exact ⟨rfl, rfl, rfl⟩
      | some j =>
        rw [hraw] at h
        cases j with
        | null => cases h; exact ⟨rfl, rfl, rfl⟩
        | obj raw => cases h; exact ⟨rfl, rfl, rfl⟩
        | _ => cases h

theorem above_of_pathFor? {t : FileTree} {path : Path} (h : pathFor? t source name = some path) :
    t.isFile path ∧ ∃ d ∈ (searchDir source).ancestors, path = d / Path.ofString name := by
  unfold pathFor? at h
  dsimp only at h
  split at h
  · next hbeside =>
    cases h
    exact ⟨hbeside, _, (Path.upward_ancestors _).mem, rfl⟩
  · refine ⟨List.find?_some h, ?_⟩
    obtain ⟨d, hd, rfl⟩ := List.mem_map.mp (List.mem_of_find?_eq_some h)
    exact ⟨d, hd, rfl⟩

theorem governs_of_resolve (h : (resolve w source name debug).1 = .ok config) :
    Governs w.tree source name config := by
  unfold resolve at h
  cases hpath : pathFor? w.tree source name with
  | none =>
    rw [hpath] at h
    cases h
  | some path =>
    rw [hpath] at h
    obtain ⟨hfile, habove⟩ := above_of_pathFor? hpath
    obtain ⟨rfl, hdir, hoptions⟩ := options_of_read h
    exact ⟨hfile, habove, hdir, hoptions⟩

/-- The directory of a configuration is absolute if the source is, or the name that is looked for,
and then only. -/
theorem Governs.isAbsolute_dir {t : FileTree} (h : Governs t source name config)
    (hparent : source.parent = some d) :
    config.dir.isAbsolute = (source.isAbsolute || (Path.ofString name).isAbsolute) := by
  obtain ⟨above, habove, hpath⟩ := h.above
  have hpath_absolute : config.path.isAbsolute =
      (source.isAbsolute || (Path.ofString name).isAbsolute) := by
    rw [hpath, Path.isAbsolute_join_eq, Path.isAbsolute_ancestors habove, searchDir, hparent,
      Option.getD_some, Path.isAbsolute_parent hparent]
  rw [h.dir, ← hpath_absolute]
  cases hq : config.path.parent with
  | some q => exact Path.isAbsolute_parent hq
  | none =>
    cases hp : config.path.isAbsolute with
    | false => rfl
    | true =>
      obtain ⟨q, hsome⟩ := FileTree.parent_of_isFile hp h.file
      cases hq.symm.trans hsome

end Config

/-! ## The paths among the options -/

namespace Options

variable {raw : List (String × Json)} {base : Path} {s : String}

/-- The paths that options tell: the values of some options, and the items of the values of
others. -/
inductive Tells (members : List (String × Json)) (s : String) : Prop
  | value {name : String} (hname : name ∈ pathOptions) (h : (name, Json.str s) ∈ members)
  | item {name : String} {items : List Json} (hname : name ∈ pathListOptions)
    (h : (name, Json.arr items) ∈ members) (hs : .str s ∈ items)

theorem str_of_convert {name : String} {j : Json} (hname : name ∈ pathOptions)
    (h : convert base name j = some (.str s)) : ∃ r, j = .str r ∧ s = resolvePath base r := by
  cases j with
  | str r =>
    refine ⟨r, rfl, ?_⟩
    simpa [convert, hname, eq_comm] using h
  | _ => cases h

theorem arr_of_convert {name : String} {j : Json} {items : List Json}
    (hname : name ∈ pathListOptions) (h : convert base name j = some (.arr items)) :
    ∃ given, j = .arr given ∧ items = given.map (resolveItem base) := by
  cases j with
  | arr given =>
    refine ⟨given, rfl, ?_⟩
    simpa [convert, hname, eq_comm] using h
  | _ => cases h

theorem str_of_resolveItem {j : Json} (h : resolveItem base j = .str s) :
    ∃ r, j = .str r ∧ s = resolvePath base r := by
  cases j with
  | str r =>
    cases h
    exact ⟨r, rfl, rfl⟩
  | _ => cases h

/-- The paths of a project are the paths of the configuration, taken from its directory. -/
theorem tells_given (h : Tells (ofMembers raw base).given s) :
    ∃ r, Tells raw r ∧ s = resolvePath base r := by
  cases h with
  | value hname h =>
    obtain ⟨j, hj, hconvert⟩ := mem_given h
    obtain ⟨r, rfl, hs⟩ := str_of_convert hname hconvert
    exact ⟨r, .value hname hj, hs⟩
  | item hname h hs =>
    obtain ⟨j, hj, hconvert⟩ := mem_given h
    obtain ⟨given, rfl, rfl⟩ := arr_of_convert hname hconvert
    obtain ⟨i, hi, hitem⟩ := List.mem_map.mp hs
    obtain ⟨r, rfl, hs⟩ := str_of_resolveItem hitem
    exact ⟨r, .item hname hj hi, hs⟩

theorem isAbsolute_resolvePath (base : Path) (r : String) :
    (Path.ofString (resolvePath base r)).isAbsolute =
      (base.isAbsolute || (Path.ofString r).isAbsolute) := by
  have hself : Path.ofString (resolvePath base r) = (base / Path.ofString r).normalize :=
    congrArg Path.mk (String.toList_ofList)
  rw [hself, Path.isAbsolute_normalize, Path.isAbsolute_join_eq]

end Options

/-! ## The unit -/

namespace Tsc

variable {program : Option Path} {runs : Nat} {source : Path} {name : String} {debug : Bool}
  {w : World} {config : Config} {t : FileTree}

/-- The toolchain is called with the configuration, in a world in which nothing has changed but the
log. -/
theorem toolchainCall_of_config (runs : Nat)
    (h : (Config.resolve w source name debug).1 = .ok config) :
    ∃ log, toolchainCall runs source name debug w =
      (.ok (runs + 1, source, config), { w with log := log }) := by
  have hworld : ∃ log, (Config.resolve w source name debug).2 = { w with log := log } := by
    unfold Config.resolve
    split
    · exact ⟨w.log, rfl⟩
    · cases debug with
      | false => exact ⟨w.log, rfl⟩
      | true => exact ⟨_, rfl⟩
  obtain ⟨log, hlog⟩ := hworld
  have hresolve : Config.resolve w source name debug = (.ok config, { w with log := log }) :=
    Prod.ext h hlog
  rw [toolchainCall, hresolve]
  cases debug with
  | false => exact ⟨_, rfl⟩
  | true => exact ⟨_, rfl⟩

theorem result_settle (runs : Nat) (source : Path) (debug : Bool)
    (answer : Except CompileError Emission × World) :
    (settle runs source debug answer).result =
      match answer.1 with
      | .error e => .error e
      | .ok emission => selectScript emission source := by
  obtain ⟨_ | _, _⟩ := answer <;> rfl

/-- What compiling a source with the compiler proper comes to, once its configuration is read and
the project is written: the compiler is started, in the directory of the configuration, and the
result is made of what it answers. -/
theorem result_compileFile (hconfig : (Config.resolve w source name debug).1 = .ok config)
    (hwrite : writeProject source config w = .ok t) :
    ∃ log, ∀ runner, (compileFile (toolchain runner program) runs source name debug w).result =
      match (runner { w with tree := t, log := log } (invocation program source config w)).1 with
      | .error cause => .error (.toolchain (invocation program source config w).program.text cause)
      | .ok f => selectScript (Emission.ofListing (Text.decodeLossy f.stdout)).1 source := by
  obtain ⟨log, hcall⟩ := toolchainCall_of_config runs hconfig
  refine ⟨log, fun runner => ?_⟩
  have hlogged : writeProject source config { w with log := log } = .ok t := hwrite
  rw [compileFile_eq, hcall]
  dsimp only
  rw [result_settle, fst_toolchain hlogged]
  have hran : compiled runner program source config { w with log := log } t =
      runner { w with tree := t, log := log } (invocation program source config w) := rfl
  rw [hran]
  cases (runner { w with tree := t, log := log } (invocation program source config w)).1 <;> rfl

/-- What the compiler is given to compile, and how it has to be read.

The compiler is started in the directory of the configuration and told the project that was just
written there, with the source as its only file; the files are `t` then. The directory is absolute
if the source is, or the name of configurations. Whatever absolute directory `here` the caller works
in, the path of the project is the same from that directory and from the compiler's if it is
absolute, and else only if these two directories are the same; and so is the path of the source from
the directory of the project, which is that of the configuration. If they are absolute, the project
is read and the source is found from every directory. Every path among the options is absolute if
the directory is, and else only if the configuration has it so. -/
structure UnitLaw (program : Option Path) (runs : Nat) (source : Path) (name : String)
    (debug : Bool) (w : World) (config : Config) (t : FileTree) : Prop where
  started : ∃ log, ∀ runner,
    (compileFile (toolchain runner program) runs source name debug w).result =
      match (runner { w with tree := t, log := log } (invocation program source config w)).1 with
      | .error cause => .error (.toolchain (invocation program source config w).program.text cause)
      | .ok f => selectScript (Emission.ofListing (Text.decodeLossy f.stdout)).1 source
  told : (invocation program source config w).dir = config.dir ∧
    (invocation program source config w).arguments =
      ["-p", (projectPath w config.dir source).text, "--listEmittedFiles", "--pretty", "false"]
  beside : ∃ s : Name, '/' ∉ s ∧ projectPath w config.dir source = config.dir / (⟨s⟩ : Path)
  written : t.readText (projectPath w config.dir source) =
    .ok (Json.obj [("compilerOptions", .obj config.options.given),
      ("files", .arr [.str source.text]), ("include", .arr [])]).compact
  absolute_dir : config.dir.isAbsolute = (source.isAbsolute || (Path.ofString name).isAbsolute)
  project_iff : ∀ here : Path, here.isAbsolute →
    (((here / config.dir) / projectPath w config.dir source).same
        (here / projectPath w config.dir source) ↔
      config.dir.isAbsolute ∨ (here / config.dir).same here)
  source_iff : ∀ here : Path, here.isAbsolute →
    (((here / config.dir) / source).same (here / source) ↔
      source.isAbsolute ∨ (here / config.dir).same here)
  project_read : config.dir.isAbsolute → ∀ place,
    (t.seenFrom place).readText (projectPath w config.dir source) =
      t.readText (projectPath w config.dir source)
  source_found : source.isAbsolute → ∀ place, (t.seenFrom place).stat source = t.stat source
  options : ∀ s, Options.Tells config.options.given s →
    ∃ r, Options.Tells (Config.rawOptions w.tree config.path) r ∧
      s = Options.resolvePath config.dir r ∧
      ((Path.ofString s).isAbsolute ↔ config.dir.isAbsolute ∨ (Path.ofString r).isAbsolute)

/-- The path of a project is absolute if that of its directory is. -/
theorem isAbsolute_projectPath (w : World) (dir source : Path) :
    (projectPath w dir source).isAbsolute = dir.isAbsolute := by
  rw [projectPath, Path.isAbsolute_join_eq]
  exact Bool.or_false _

/-- The unit of a compilation of an absolute source is that source. -/
theorem unit_law (program : Option Path) (runs : Nat) (source d : Path) (name : String)
    (debug : Bool) (w : World) (config : Config) (t : FileTree) (hparent : source.parent = some d)
    (hconfig : (Config.resolve w source name debug).1 = .ok config)
    (hwrite : writeProject source config w = .ok t) :
    UnitLaw program runs source name debug w config t := by
  have hgoverns := Config.governs_of_resolve hconfig
  have hproject := isAbsolute_projectPath w config.dir source
  obtain ⟨s, hslash, -, -, hbeside⟩ := exists_projectPath w config.dir source
  refine ⟨result_compileFile hconfig hwrite, ⟨rfl, rfl⟩, ⟨s, hslash, hbeside⟩, ?_,
    hgoverns.isAbsolute_dir hparent, fun here hhere => ?_,
    fun here hhere => Path.same_join_iff hhere, fun hdir place => ?_,
    fun hsource place => FileTree.stat_seenFrom hsource place, fun s hs => ?_⟩
  · rw [← Options.project_eq]
    exact FileTree.readText_of_writeText hwrite
  · rw [Path.same_join_iff hhere, hproject]
  · exact FileTree.readText_seenFrom (hproject.trans hdir) place
  · rw [hgoverns.options] at hs
    obtain ⟨r, hr, rfl⟩ := Options.tells_given hs
    refine ⟨r, hr, rfl, ?_⟩
    rw [Options.isAbsolute_resolvePath, Bool.or_eq_true]

/-- A source and a configuration beside it, seen from the root. -/
def smallWorld : World :=
  ⟨⟨[(["p".toList], .dir ⟨0⟩), (["p".toList, "a.ts".toList], .file .empty ⟨0⟩ 0),
    (["p".toList, "tsconfig.json".toList], .file .empty ⟨0⟩ 0)], []⟩, [], ⟨0⟩, 1, #[]⟩

/-- The tree of the small world with a project in it. -/
def smallTree (project : Json) : FileTree :=
  smallWorld.tree.put ["p".toList, ".tshook-1-a.tsconfig.json".toList]
    (.file (Text.encode project.compact) ⟨0⟩ FileTree.plainMode)

/-- The source is told from everywhere by its absolute path; by its relative path the compiler is
given a project that it does not find where it was written. -/
theorem unit_law_two_spellings :
    ((compileFile (toolchain grumbling none) 0 "/p/a.ts" "tsconfig.json" false smallWorld).result =
        .ok "/a.js" ∧
      ∀ place, ((smallTree (Options.empty.project "/p/a.ts")).seenFrom place).readText
          "/p/.tshook-1-a.tsconfig.json" =
        .ok (Json.obj [("compilerOptions", .obj []), ("files", .arr [.str "/p/a.ts"]),
          ("include", .arr [])]).compact) ∧
    ¬("/p/p/.tshook-1-a.tsconfig.json" : Path).same "/p/.tshook-1-a.tsconfig.json" := by
  refine ⟨?_, fun hsame => ?_⟩
  · have hlaw : UnitLaw none 0 "/p/a.ts" "tsconfig.json" false smallWorld
        ⟨"/p/tsconfig.json", "/p", .empty⟩ (smallTree (Options.empty.project "/p/a.ts")) :=
      unit_law none 0 "/p/a.ts" "/p" "tsconfig.json" false smallWorld _ _ rfl (by rfl) (by rfl)
    have hpath : projectPath smallWorld "/p" "/p/a.ts" = "/p/.tshook-1-a.tsconfig.json" := by
      decide +kernel
    have hlisting : (Emission.ofListing (Text.decodeLossy (Text.encode "TSFILE: /a.js\n"))).1 =
        .ofPaths ["/a.js"] := by decide +kernel
    have hscript : selectScript (.ofPaths ["/a.js"]) "/p/a.ts" = .ok "/a.js" := by rfl
    obtain ⟨log, hstarted⟩ := hlaw.started
    refine ⟨(hstarted grumbling).trans ?_, fun place => ?_⟩
    · exact (congrArg (selectScript · "/p/a.ts") hlisting).trans hscript
    · rw [← hpath]
      exact (hlaw.project_read rfl place).trans hlaw.written
  · have hlaw : UnitLaw none 0 "p/a.ts" "tsconfig.json" false smallWorld
        ⟨"p/tsconfig.json", "p", .empty⟩ (smallTree (Options.empty.project "p/a.ts")) :=
      unit_law none 0 "p/a.ts" "p" "tsconfig.json" false smallWorld _ _ rfl (by rfl) (by rfl)
    have hfar : ("/" / "p" : Path) / projectPath smallWorld "p" "p/a.ts" =
        "/p/p/.tshook-1-a.tsconfig.json" := by decide +kernel
    have hnear : ("/" : Path) / projectPath smallWorld "p" "p/a.ts" =
        "/p/.tshook-1-a.tsconfig.json" := by decide +kernel
    rw [← hfar, ← hnear] at hsame
    exact absurd ((hlaw.project_iff "/" rfl).mp hsame) (by decide +kernel)

end Tsc
end LoadHook
