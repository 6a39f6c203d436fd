import LoadHook.Module.Resolution
import LoadHook.Proofs.Files.Walk
import LoadHook.Proofs.Path.Canonical

/-!
# Specifiers lead to canonical paths

From a canonical directory a specifier that is a path leads to a canonical path, since it is made
normal before it is looked up. A specifier that names a package is looked up as it is written:
it leads to a canonical path if there is no `..` in it.
-/
namespace LoadHook.Resolution

open LoadHook.Path (Canonical)

variable {t : FileTree} {extensions : List String} {base dir p : Path}

/-- Extensions without separator. -/
def Unbroken (extensions : List String) : Prop := ∀ e ∈ extensions, '/' ∉ e.toList

/-- The file found for a path is the path with something at its end. -/
theorem file?_cases (he : Unbroken extensions) (hp : file? t extensions base = some p) :
    ∃ ds, base.append ds = p ∧ '/' ∉ ds ∧ t.isFile p := by
  unfold file? at hp
  split at hp
  · next hfile =>
    cases hp
    exact ⟨[], by simp [Path.append], by simp, hfile⟩
  · obtain ⟨e, hmem, rfl⟩ := List.mem_map.mp (List.mem_of_find?_eq_some hp)
    exact ⟨_, rfl, by simpa using he e hmem, List.find?_some hp⟩

/-- The file found for a path is canonical if no `..` stands in front of the last piece of the
path, and only then. -/
theorem canonical_file?_iff (he : Unbroken extensions) (hb : base.isAbsolute)
    (hp : file? t extensions base = some p) :
    Canonical p ↔ ['.', '.'] ∉ base.pieces.dropLast := by
  obtain ⟨ds, rfl, hds, hfile⟩ := file?_cases he hp
  obtain ⟨habs, front, last, hfront, happend⟩ := Path.pieces_append hb hds
  rw [hfront, List.dropLast_concat]
  refine ⟨fun h hup => h.straight ?_, fun h => ⟨habs, fun hup => ?_⟩⟩
  · rw [happend]
    exact List.mem_append_left _ hup
  · rw [happend] at hup
    rcases List.mem_append.mp hup with hup | hup
    · exact h hup
    · -- a path that goes up at last is no file, so the extension cannot have made it one
      have hlast : last ++ ds = FileTree.upName := (List.mem_singleton.mp hup).symm
      rw [hlast] at happend
      rw [FileTree.isFile_up habs happend] at hfile
      cases hfile

theorem canonical_file? (he : Unbroken extensions) (hb : Canonical base)
    (hp : file? t extensions base = some p) : Canonical p :=
  (canonical_file?_iff he hb.absolute hp).mpr fun h => hb.straight (List.dropLast_subset _ h)

/-- The index file of a canonical directory is canonical. -/
theorem canonical_index? (he : Unbroken extensions) (hd : Canonical dir)
    (hp : index? t extensions dir = some p) : Canonical p := by
  obtain ⟨e, hmem, rfl⟩ := List.mem_map.mp (List.mem_of_find?_eq_some hp)
  have hslash : '/' ∉ "index.".toList ++ e.toList := by simpa using he e hmem
  have hpieces : Path.pieces ⟨"index.".toList ++ e.toList⟩ = ["index.".toList ++ e.toList] :=
    Path.segments_of_not_mem hslash
  refine Path.canonical_join hd rfl fun hup => ?_
  rw [hpieces] at hup
  simp at hup

/-- The main file of a directory is one of the path that its manifest names, or an index file. -/
theorem directory?_cases (hp : directory? t extensions dir = some p) :
    (∃ main, file? t extensions (dir / main).normalize = some p ∨
      index? t extensions (dir / main).normalize = some p) ∨
      index? t extensions dir = some p := by
  unfold directory? at hp
  split at hp
  · rcases Option.or_eq_some_iff.mp hp with hp | ⟨-, hp⟩
    · obtain ⟨main, -, hp⟩ := Option.bind_eq_some_iff.mp hp
      exact .inl ⟨main, (Option.or_eq_some_iff.mp hp).imp_right And.right⟩
    · exact .inr hp
  · cases hp

theorem lookup_cases (hp : lookup t extensions base = some p) :
    file? t extensions base = some p ∨ directory? t extensions base = some p :=
  (Option.or_eq_some_iff.mp hp).imp_right And.right

/-- The main file of a canonical directory is canonical, whatever its manifest says. -/
theorem canonical_directory? (he : Unbroken extensions) (hd : Canonical dir)
    (hp : directory? t extensions dir = some p) : Canonical p := by
  have hentry (main : Path) := Path.canonical_normalize (Path.isAbsolute_join hd.absolute main)
  rcases directory?_cases hp with ⟨main, hp | hp⟩ | hp
  · exact canonical_file? he (hentry main) hp
  · exact canonical_index? he (hentry main) hp
  · exact canonical_index? he hd hp

theorem canonical_lookup (he : Unbroken extensions) (hb : Canonical base)
    (hp : lookup t extensions base = some p) : Canonical p := by
  rcases lookup_cases hp with hp | hp
  · exact canonical_file? he hb hp
  · exact canonical_directory? he hb hp

/-- A specifier that is a path, or has no `..` in it. -/
def Straight (specifier : String) : Prop :=
  isPathLike specifier.toList ∨ ['.', '.'] ∉ (Path.ofString specifier).pieces

/-- A straight specifier is looked up at canonical paths. -/
theorem canonical_bases {specifier : String} (hd : Canonical dir) (hs : Straight specifier)
    (hb : base ∈ bases specifier.toList dir) : Canonical base := by
  unfold bases at hb
  split at hb
  · rw [List.mem_singleton.mp hb]
    exact Path.canonical_normalize (Path.isAbsolute_join hd.absolute _)
  · next hlike =>
    obtain ⟨d, hmem, rfl⟩ := List.mem_map.mp hb
    have habs : (Path.ofString specifier).isAbsolute = false :=
      Bool.eq_false_iff.mpr fun h => hlike (by rw [isPathLike, Bool.or_eq_true]; exact .inr h)
    have hmodules : Canonical (d / "node_modules") :=
      Path.canonical_join (hd.ancestors hmem) rfl (by decide)
    exact Path.canonical_join hmodules habs (hs.resolve_left hlike)

/-- From a canonical directory a straight specifier leads to a canonical path. -/
theorem canonical_resolve {specifier : String} (he : Unbroken extensions) (hd : Canonical dir)
    (hs : Straight specifier) (hp : resolve t extensions specifier dir = some p) :
    Canonical p := by
  obtain ⟨base, hb, hp⟩ := List.exists_of_findSome?_eq_some hp
  exact canonical_lookup he (canonical_bases hd hs hb) hp

/-! ## Specifiers lead to files -/

theorem isFile_file? (hp : file? t extensions base = some p) : t.isFile p := by
  unfold file? at hp
  split at hp
  · next hfile =>
    cases hp
    exact hfile
  · exact List.find?_some hp

theorem isFile_index? (hp : index? t extensions dir = some p) : t.isFile p := List.find?_some hp

theorem isFile_directory? (hp : directory? t extensions dir = some p) : t.isFile p := by
  rcases directory?_cases hp with ⟨main, hp | hp⟩ | hp
  · exact isFile_file? hp
  · exact isFile_index? hp
  · exact isFile_index? hp

/-- What a specifier leads to is a file. -/
theorem isFile_resolve {specifier : String} (hp : resolve t extensions specifier dir = some p) :
    t.isFile p := by
  obtain ⟨base, -, hp⟩ := List.exists_of_findSome?_eq_some hp
  rcases lookup_cases hp with hp | hp
  · exact isFile_file? hp
  · exact isFile_directory? hp

end LoadHook.Resolution
