import LoadHook.Module.Entry
import LoadHook.Proofs.Files.Ways
import LoadHook.Proofs.Module.Resolution
import LoadHook.Proofs.Path.Parent
import Mathlib.Data.List.Forall2

/-!
# The order of search

What is tried for a specifier is listed beforehand: files first as they are named, then with each
extension, then what a directory there stands for; and for a package so in each directory above.
A specifier leads to the first regular file of that list.

A specifier that is a path is made normal by its text before anything is looked up. Where there are
no symbolic links that changes nothing: the normal form of an absolute path leads to what the path
leads to. So a specifier that names a file leads to that file.
-/
namespace LoadHook

namespace Resolution

/-! ## What is tried -/

/-- A path that is tried: as it is, or a stem with an extension at its end. -/
inductive Probe where
  | exact (p : Path)
  | extended (stem : Path) (extension : String)
  deriving DecidableEq

namespace Probe

/-- The path that is tried. -/
def path : Probe → Path
  | .exact p => p
  | .extended stem e => stem.append ('.' :: e.toList)

/-- Whether a regular file is there. -/
def hits (t : FileTree) (q : Probe) : Bool := t.isFile q.path

end Probe

/-- A stem with each extension. -/
def extendedProbes (extensions : List String) (stem : Path) : List Probe :=
  extensions.map (.extended stem)

/-- A file by its path, its extension given or left out. -/
def fileProbes (extensions : List String) (base : Path) : List Probe :=
  .exact base :: extendedProbes extensions base

/-- The index files of a directory. -/
def indexProbes (extensions : List String) (dir : Path) : List Probe :=
  extendedProbes extensions (dir / "index")

/-- The manifest of a directory can be read, is a JSON object, and names a main file. -/
def HasMain (t : FileTree) (dir : Path) (main : String) : Prop :=
  ∃ text members, t.readText (dir / "package.json") = .ok text ∧
    Json.parse text = .ok (.obj members) ∧ Json.lookup "main" members = some (.str main)

/-- What is tried for a path, in order. -/
inductive Listing (t : FileTree) (extensions : List String) (base : Path) : List Probe → Prop
  | plain (hdir : t.isDir base = false) : Listing t extensions base (fileProbes extensions base)
  | unnamed (hdir : t.isDir base) (hmain : ∀ main, ¬ HasMain t base main) :
    Listing t extensions base (fileProbes extensions base ++ indexProbes extensions base)
  | named (hdir : t.isDir base) {main : String} (hmain : HasMain t base main) :
    Listing t extensions base (fileProbes extensions base ++
      (fileProbes extensions (base / Path.ofString main).normalize ++
        indexProbes extensions (base / Path.ofString main).normalize) ++
      indexProbes extensions base)

/-- A specifier that is a path. -/
def IsPath (specifier : String) : Prop :=
  specifier = "." ∨ specifier = ".." ∨ ['.', '/'] <+: specifier.toList ∨
    ['.', '.', '/'] <+: specifier.toList ∨ ['/'] <+: specifier.toList

/-- What is tried for a specifier, in order: a path is taken from the directory and made normal,
anything else is looked for in the packages of the directory and of those above it. -/
inductive SearchOrder (t : FileTree) (extensions : List String) (specifier : String) (dir : Path) :
    List Probe → Prop
  | path (hpath : IsPath specifier) {probes : List Probe}
    (hlist : Listing t extensions (dir / Path.ofString specifier).normalize probes) :
    SearchOrder t extensions specifier dir probes
  | package (hpath : ¬ IsPath specifier) {dirs : List Path} {lists : List (List Probe)}
    (hdirs : Path.Upward dir dirs)
    (hlists : List.Forall₂
      (fun d => Listing t extensions (d / "node_modules" / Path.ofString specifier)) dirs lists) :
    SearchOrder t extensions specifier dir lists.flatten

variable {t : FileTree} {extensions : List String} {specifier main : String}
  {base dir d p stem : Path} {probes probes' : List Probe} {q : Probe} {e : String}

/-! ## The list is unique -/

theorem HasMain.unique {main' : String} (h : HasMain t dir main) (h' : HasMain t dir main') :
    main = main' := by
  obtain ⟨text, members, hread, hparse, hlookup⟩ := h
  obtain ⟨text', members', hread', hparse', hlookup'⟩ := h'
  cases hread.symm.trans hread'
  cases hparse.symm.trans hparse'
  cases hlookup.symm.trans hlookup'
  rfl

theorem Listing.unique (h : Listing t extensions base probes)
    (h' : Listing t extensions base probes') : probes = probes' := by
  cases h with
  | plain hdir =>
    cases h' with
    | plain => rfl
    | unnamed hdir' | named hdir' => exact absurd (hdir.symm.trans hdir') (by simp)
  | unnamed hdir hmain =>
    cases h' with
    | plain hdir' => exact absurd (hdir'.symm.trans hdir) (by simp)
    | unnamed => rfl
    | named _ hmain' => exact absurd hmain' (hmain _)
  | named hdir hmain =>
    cases h' with
    | plain hdir' => exact absurd (hdir'.symm.trans hdir) (by simp)
    | unnamed _ hmain' => exact absurd hmain (hmain' _)
    | named _ hmain' => rw [hmain.unique hmain']

theorem Listing.exists (t : FileTree) (extensions : List String) (base : Path) :
    ∃ probes, Listing t extensions base probes := by
  by_cases hdir : t.isDir base
  · by_cases hmain : ∃ main, HasMain t base main
    · obtain ⟨main, hmain⟩ := hmain
      exact ⟨_, .named hdir hmain⟩
    · exact ⟨_, .unnamed hdir (not_exists.mp hmain)⟩
  · exact ⟨_, .plain (Bool.eq_false_iff.mpr hdir)⟩

theorem SearchOrder.unique (h : SearchOrder t extensions specifier dir probes)
    (h' : SearchOrder t extensions specifier dir probes') : probes = probes' := by
  cases h with
  | path hpath hlist =>
    cases h' with
    | path _ hlist' => exact hlist.unique hlist'
    | package hpath' => exact absurd hpath hpath'
  | package hpath hdirs hlists =>
    cases h' with
    | path hpath' => exact absurd hpath' hpath
    | package _ hdirs' hlists' =>
      cases hdirs.unique hdirs'
      have hright : Relator.RightUnique fun d =>
          Listing t extensions (d / "node_modules" / Path.ofString specifier) :=
        fun _ _ _ hl hl' => hl.unique hl'
      rw [hright.forall₂ hlists hlists']

theorem SearchOrder.exists (t : FileTree) (extensions : List String) (specifier : String)
    (dir : Path) : ∃ probes, SearchOrder t extensions specifier dir probes := by
  by_cases hpath : IsPath specifier
  · obtain ⟨probes, hlist⟩ :=
      Listing.exists t extensions (dir / Path.ofString specifier).normalize
    exact ⟨probes, .path hpath hlist⟩
  · choose list hlist using fun d : Path =>
      Listing.exists t extensions (d / "node_modules" / Path.ofString specifier)
    have hlists : List.Forall₂
        (fun d => Listing t extensions (d / "node_modules" / Path.ofString specifier))
        dir.ancestors (dir.ancestors.map list) :=
      List.forall₂_map_right_iff.mpr (List.forall₂_same.mpr fun d _ => hlist d)
    exact ⟨_, .package hpath dir.upward_ancestors hlists⟩

/-! ## The first file of a list -/

/-- The first regular file that is tried. -/
def firstFile (t : FileTree) (probes : List Probe) : Option Path :=
  (probes.find? (Probe.hits t)).map Probe.path

theorem firstFile_append (t : FileTree) (probes probes' : List Probe) :
    firstFile t (probes ++ probes') = (firstFile t probes).or (firstFile t probes') := by
  rw [firstFile, List.find?_append, Option.map_or]
  rfl

theorem firstFile_flatten (t : FileTree) (lists : List (List Probe)) :
    firstFile t lists.flatten = lists.findSome? (firstFile t) := by
  induction lists with
  | nil => rfl
  | cons probes rest ih =>
    rw [List.flatten_cons, firstFile_append, ih, List.findSome?_cons]
    cases firstFile t probes <;> rfl

theorem find?_extended (t : FileTree) (extensions : List String) (stem : Path) :
    (extensions.map fun e => stem.append ('.' :: e.toList)).find? t.isFile =
      firstFile t (extendedProbes extensions stem) := by
  rw [firstFile, extendedProbes, List.find?_map, List.find?_map, Option.map_map]
  rfl

theorem file?_eq (t : FileTree) (extensions : List String) (base : Path) :
    file? t extensions base = firstFile t (fileProbes extensions base) := by
  rw [file?, find?_extended]
  have hbase : Probe.hits t (.exact base) = t.isFile base := rfl
  cases hfile : t.isFile base with
  | true => simp [fileProbes, firstFile, hbase, hfile, Probe.path]
  | false => simp [fileProbes, firstFile, hbase, hfile]

/-- The index file of a directory is a file in it called `index` with an extension. -/
theorem append_index (dir : Path) (e : List Char) :
    (dir / "index").append ('.' :: e) = dir / ⟨"index.".toList ++ e⟩ := by
  have hindex : ("index" : Path).isAbsolute = false := rfl
  have hindex' : (⟨"index.".toList ++ e⟩ : Path).isAbsolute = false := rfl
  change (dir.join "index").append ('.' :: e) = dir.join _
  rw [Path.join, Path.join, hindex, hindex']
  simp only [Bool.false_eq_true, if_false]
  split <;> simp [Path.append]

theorem index?_eq (t : FileTree) (extensions : List String) (dir : Path) :
    index? t extensions dir = firstFile t (indexProbes extensions dir) := by
  rw [index?, indexProbes, ← find?_extended]
  simp only [append_index]

theorem main?_of_hasMain (h : HasMain t dir main) : main? t dir = some (Path.ofString main) := by
  obtain ⟨text, members, hread, hparse, hlookup⟩ := h
  simp [main?, hread, hparse, Except.toOption, Json.get?, hlookup, Json.str?]

theorem hasMain_of_main? (h : main? t dir = some p) : ∃ main, HasMain t dir main := by
  unfold main? at h
  cases hread : t.readText (dir / "package.json") with
  | error cause =>
    rw [hread] at h
    cases h
  | ok text =>
    cases hparse : Json.parse text with
    | error fault => simp [hread, hparse, Except.toOption] at h
    | ok manifest =>
      simp only [hread, hparse, Except.toOption, Option.bind_eq_bind, Option.bind_some,
        Option.bind_eq_some_iff] at h
      obtain ⟨member, hmember, main, hmain, -⟩ := h
      cases manifest with
      | obj members =>
        cases member with
        | str s => exact ⟨s, text, members, hread, hparse, hmember⟩
        | _ => cases hmain
      | _ => cases hmember

/-- A path stands for the first regular file that is tried for it. -/
theorem Listing.lookup_eq (h : Listing t extensions base probes) :
    lookup t extensions base = firstFile t probes := by
  rw [lookup, file?_eq]
  cases h with
  | plain hdir => rw [directory?, if_neg (Bool.eq_false_iff.mp hdir), Option.or_none]
  | unnamed hdir hmain =>
    have hnone : main? t base = none := by
      refine Option.eq_none_iff_forall_not_mem.mpr fun p hp => ?_
      obtain ⟨main, h⟩ := hasMain_of_main? hp
      exact hmain main h
    rw [directory?, if_pos hdir, hnone, Option.bind_none, Option.none_or, index?_eq,
      firstFile_append]
  | named hdir hmain =>
    rw [directory?, if_pos hdir, main?_of_hasMain hmain, Option.bind_some]
    simp only [file?_eq, index?_eq, firstFile_append, Option.or_assoc]

theorem isAbsolute_iff_prefix (cs : List Char) :
    (⟨cs⟩ : Path).isAbsolute = true ↔ ['/'] <+: cs := by
  cases cs with
  | nil => simp [Path.isAbsolute]
  | cons c rest => simpa [Path.isAbsolute] using eq_comm

theorem isPathLike_iff : isPathLike specifier.toList = true ↔ IsPath specifier := by
  have hchars (s : String) : specifier.toList = s.toList ↔ specifier = s := String.toList_inj
  rw [IsPath, ← hchars ".", ← hchars "..", ← isAbsolute_iff_prefix, isPathLike]
  simp only [Bool.or_eq_true, beq_iff_eq, List.isPrefixOf_iff_prefix, or_assoc]
  rfl

theorem firstFile_of_forall₂ {dirs : List Path} {lists : List (List Probe)} {f : Path → Path}
    (h : List.Forall₂ (fun d => Listing t extensions (f d)) dirs lists) :
    (dirs.map f).findSome? (lookup t extensions) = lists.findSome? (firstFile t) := by
  induction h with
  | nil => rfl
  | cons hlist _ ih =>
    rw [List.map_cons, List.findSome?_cons, List.findSome?_cons, ih, hlist.lookup_eq]

/-- A specifier leads to the first regular file that is tried for it. -/
theorem SearchOrder.resolve_eq (h : SearchOrder t extensions specifier dir probes) :
    resolve t extensions specifier dir = firstFile t probes := by
  rw [resolve, bases]
  cases h with
  | path hpath hlist =>
    rw [if_pos (isPathLike_iff.mpr hpath), ← hlist.lookup_eq]
    exact List.findSome?_singleton
  | package hpath hdirs hlists =>
    cases hdirs.unique dir.upward_ancestors
    rw [if_neg (mt isPathLike_iff.mp hpath), firstFile_flatten]
    exact firstFile_of_forall₂ hlists

theorem firstFile_eq_some_iff : firstFile t probes = some p ↔
    ∃ before q after, probes = before ++ q :: after ∧
      (∀ r ∈ before, t.isFile r.path = false) ∧ t.isFile q.path ∧ q.path = p := by
  rw [firstFile, Option.map_eq_some_iff]
  constructor
  · rintro ⟨q, hq, rfl⟩
    obtain ⟨hhit, before, after, rfl, hbefore⟩ := List.find?_eq_some_iff_append.mp hq
    exact ⟨before, q, after, rfl, fun r hr => by simpa [Probe.hits] using hbefore r hr, hhit, rfl⟩
  · rintro ⟨before, q, after, rfl, hbefore, hhit, rfl⟩
    refine ⟨q, List.find?_eq_some_iff_append.mpr ⟨hhit, before, after, rfl, fun r hr => ?_⟩, rfl⟩
    simpa [Probe.hits] using hbefore r hr

theorem firstFile_eq_none_iff :
    firstFile t probes = none ↔ ∀ q ∈ probes, t.isFile q.path = false := by
  simp [firstFile, Probe.hits]

/-! ## Index files -/

theorem mem_fileProbes : Probe.exact d ∈ fileProbes extensions base ↔ d = base := by
  simp [fileProbes, extendedProbes]

theorem exact_not_mem_extended : Probe.exact d ∉ extendedProbes extensions stem := by
  simp [extendedProbes]

theorem mem_indexProbes (he : e ∈ extensions) :
    Probe.extended (d / "index") e ∈ indexProbes extensions d :=
  List.mem_map_of_mem he

/-- Of a directory that is tried the index files are tried too, whatever its manifest is. -/
theorem Listing.mem_index (h : Listing t extensions base probes) (hd : .exact d ∈ probes)
    (hdir : t.isDir d) (he : e ∈ extensions) : .extended (d / "index") e ∈ probes := by
  cases h with
  | plain hplain =>
    rw [mem_fileProbes.mp hd] at hdir
    exact absurd (hplain.symm.trans hdir) (by simp)
  | unnamed =>
    rcases List.mem_append.mp hd with hd | hd
    · rw [mem_fileProbes.mp hd]
      exact List.mem_append_right _ (mem_indexProbes he)
    · exact absurd hd exact_not_mem_extended
  | named =>
    rcases List.mem_append.mp hd with hd | hd
    · rcases List.mem_append.mp hd with hd | hd
      · rw [mem_fileProbes.mp hd]
        exact List.mem_append_right _ (mem_indexProbes he)
      · refine List.mem_append_left _ (List.mem_append_right _ (List.mem_append_right _ ?_))
        rcases List.mem_append.mp hd with hd | hd
        · rw [mem_fileProbes.mp hd]
          exact mem_indexProbes he
        · exact absurd hd exact_not_mem_extended
    · exact absurd hd exact_not_mem_extended

theorem exists_listing {dirs : List Path} {lists : List (List Probe)} {f : Path → Path}
    (h : List.Forall₂ (fun d => Listing t extensions (f d)) dirs lists) (hp : probes ∈ lists) :
    ∃ d ∈ dirs, Listing t extensions (f d) probes := by
  induction h with
  | nil => cases hp
  | cons hlist _ ih =>
    rcases List.mem_cons.mp hp with rfl | hp
    · exact ⟨_, List.mem_cons_self, hlist⟩
    · obtain ⟨d, hd, hlist⟩ := ih hp
      exact ⟨d, List.mem_cons_of_mem _ hd, hlist⟩

theorem SearchOrder.mem_index (h : SearchOrder t extensions specifier dir probes)
    (hd : .exact d ∈ probes) (hdir : t.isDir d) (he : e ∈ extensions) :
    .extended (d / "index") e ∈ probes := by
  cases h with
  | path _ hlist => exact hlist.mem_index hd hdir he
  | package _ _ hlists =>
    obtain ⟨list, hlist, hd⟩ := List.mem_flatten.mp hd
    obtain ⟨_, -, hbase⟩ := exists_listing hlists hlist
    exact List.mem_flatten.mpr ⟨list, hlist, hbase.mem_index hd hdir he⟩

theorem resolve_path (hpath : IsPath specifier) : resolve t extensions specifier dir =
    lookup t extensions (dir / Path.ofString specifier).normalize := by
  rw [resolve, bases, if_pos (isPathLike_iff.mpr hpath)]
  exact List.findSome?_singleton

end Resolution

namespace Host

open Resolution

/-- What a specifier leads to from a directory.

There is one list of what is tried. The result is the first path of the list that is a regular
file; there is none exactly if no path of the list is one. So whatever is found is a regular file,
and where a directory is tried that has an index file something is found, whatever the manifest of
the directory is. -/
structure SearchLaw (h : Host) (specifier : String) (dir : Path) : Prop where
  listed : ∃! probes,
    SearchOrder h.workspace.world.tree h.registry.extensions specifier dir probes
  found_iff : ∀ probes,
    SearchOrder h.workspace.world.tree h.registry.extensions specifier dir probes →
    ∀ p, h.resolve specifier dir = .ok p ↔
      ∃ before q after, probes = before ++ q :: after ∧
        (∀ r ∈ before, h.workspace.world.tree.isFile r.path = false) ∧
        h.workspace.world.tree.isFile q.path ∧ q.path = p
  missing_iff : ∀ probes,
    SearchOrder h.workspace.world.tree h.registry.extensions specifier dir probes →
    ∀ e, h.resolve specifier dir = .error e ↔ e = .moduleNotFound specifier dir ∧
      ∀ q ∈ probes, h.workspace.world.tree.isFile q.path = false
  file : ∀ p, h.resolve specifier dir = .ok p → h.workspace.world.tree.isFile p
  index : ∀ probes,
    SearchOrder h.workspace.world.tree h.registry.extensions specifier dir probes →
    ∀ d e, .exact d ∈ probes → h.workspace.world.tree.isDir d → e ∈ h.registry.extensions →
      h.workspace.world.tree.isFile (d / ⟨"index.".toList ++ e.toList⟩) →
      ∃ p, h.resolve specifier dir = .ok p

variable {h : Host} {specifier : String} {dir p : Path} {probes : List Probe}

theorem resolve_eq_ok_iff : h.resolve specifier dir = .ok p ↔
    Resolution.resolve h.workspace.world.tree h.registry.extensions specifier dir = some p := by
  unfold Host.resolve
  split
  · next hp => simp [hp]
  · next hp => simp [hp]

theorem resolve_eq_error_iff {e : LoadError} : h.resolve specifier dir = .error e ↔
    e = .moduleNotFound specifier dir ∧
      Resolution.resolve h.workspace.world.tree h.registry.extensions specifier dir = none := by
  unfold Host.resolve
  split
  · next hp => simp [hp]
  · next hp => simp [hp, eq_comm]

theorem resolve_eq_ok_iff_firstFile
    (horder : SearchOrder h.workspace.world.tree h.registry.extensions specifier dir probes) :
    h.resolve specifier dir = .ok p ↔ firstFile h.workspace.world.tree probes = some p := by
  rw [resolve_eq_ok_iff, horder.resolve_eq]

/-- What a specifier leads to is a regular file. -/
theorem isFile_of_resolve (hp : h.resolve specifier dir = .ok p) :
    h.workspace.world.tree.isFile p :=
  isFile_resolve (resolve_eq_ok_iff.mp hp)

/-- A specifier leads to the first regular file in the order of search. -/
theorem search_law (h : Host) (specifier : String) (dir : Path) : h.SearchLaw specifier dir := by
  obtain ⟨probes, horder⟩ :=
    SearchOrder.exists h.workspace.world.tree h.registry.extensions specifier dir
  refine ⟨⟨probes, horder, fun _ horder' => horder'.unique horder⟩, fun probes horder p => ?_,
    fun probes horder e => ?_, fun p => isFile_of_resolve,
    fun probes horder d e hd hdir he hfile => ?_⟩
  · rw [resolve_eq_ok_iff_firstFile horder, firstFile_eq_some_iff]
  · rw [resolve_eq_error_iff, horder.resolve_eq, firstFile_eq_none_iff]
  · have hindex := horder.mem_index hd hdir he
    cases hfirst : firstFile h.workspace.world.tree probes with
    | some p => exact ⟨p, (resolve_eq_ok_iff_firstFile horder).mpr hfirst⟩
    | none =>
      have hmiss := firstFile_eq_none_iff.mp hfirst _ hindex
      rw [Probe.path, append_index, hfile] at hmiss
      cases hmiss

/-! ## The file that is meant -/

/-- What an absolute path leads to is what its normal form leads to, step by step and as the system
finds it; and where the path of a specifier is a regular file, the specifier is resolved to a path
of that file. -/
structure MeaningLaw (h : Host) : Prop where
  leads : ∀ (p : Path) (place : Place), p.isAbsolute →
    h.workspace.world.tree.LeadsTo p place → h.workspace.world.tree.LeadsTo p.normalize place
  stat : ∀ (p : Path) (place : Place) (node : Node), p.isAbsolute →
    h.workspace.world.tree.stat p = .ok (place, node) →
    h.workspace.world.tree.stat p.normalize = .ok (place, node)
  resolve : ∀ (specifier : String) (dir : Path) (place : Place) (bytes : ByteArray) (m : Time)
    (mode : Nat), dir.isAbsolute → IsPath specifier →
    h.workspace.world.tree.stat (dir / Path.ofString specifier) =
      .ok (place, .file bytes m mode) →
    ∃ p, h.resolve specifier dir = .ok p ∧
      h.workspace.world.tree.stat p = .ok (place, .file bytes m mode)

/-- Without symbolic links a normal form means what it was made of. -/
theorem meaning_law (h : Host) (ht : h.workspace.world.tree.Unlinked) : h.MeaningLaw := by
  refine ⟨fun p place hp hleads => ?_, fun p place node hp hstat => ?_,
    fun specifier dir place bytes m mode hdir hpath hstat => ?_⟩
  · rw [FileTree.normalize_eq_pathOf hp hleads]
    exact hleads.standing.leadsTo fun s => hleads.not_mem
  · exact FileTree.stat_normalize ht hp hstat
  · have habs := Path.isAbsolute_join hdir (Path.ofString specifier)
    have hnormal := FileTree.stat_normalize ht habs hstat
    have hfile : h.workspace.world.tree.isFile (dir / Path.ofString specifier).normalize := by
      rw [FileTree.isFile, hnormal]
    refine ⟨_, ?_, hnormal⟩
    rw [resolve_eq_ok_iff, resolve_path hpath, lookup, file?, if_pos hfile, Option.some_or]

/-- A world with a file beside a directory. -/
def besideWorld : World :=
  ⟨⟨[(["a".toList], .dir ⟨0⟩), (["b.js".toList], .file .empty ⟨0⟩ 0)], []⟩, [], ⟨0⟩, 1, #[]⟩

/-- From the directory a step up leads to the file. -/
theorem meaning_law_beside : besideWorld.tree.Unlinked ∧
    ∃ p, (start besideWorld).resolve "./.././b.js" "/a" = .ok p ∧
      besideWorld.tree.stat p = .ok (["b.js".toList], .file .empty ⟨0⟩ 0) := by
  have ht : (start besideWorld).workspace.world.tree.Unlinked := by
    change besideWorld.tree.Unlinked
    decide
  refine ⟨ht, (meaning_law _ ht).resolve "./.././b.js" "/a" _ .empty ⟨0⟩ 0 rfl ?_ rfl⟩
  exact .inr (.inr (.inl ⟨_, rfl⟩))

end Host
end LoadHook
