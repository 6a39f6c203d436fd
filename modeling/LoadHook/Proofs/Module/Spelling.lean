import LoadHook.Module.Entry
import LoadHook.Proofs.Module.Resolution
import LoadHook.Proofs.Path.Map

/-!
# One spelling for each module

The paths under which modules are registered are written without superfluous pieces: those at which
hosts are entered are made so, and from a directory that is written so a specifier that is a path
leads to a path that is. Such paths are equal where their components are.
-/
namespace LoadHook

namespace Path

variable {p q : Path} {s : Name} {ps : List Name}

/-- A piece that is a name. -/
def NamePiece (s : Name) : Prop := s ≠ [] ∧ s ≠ ['.'] ∧ s ≠ ['.', '.']

/-- An absolute path written with names only, or the root. -/
structure Tidy (p : Path) : Prop where
  absolute : p.isAbsolute
  names : p.pieces = [[]] ∨ ∀ s ∈ p.pieces, NamePiece s

theorem ofPiece_of_namePiece (hs : NamePiece s) : Component.ofPiece s = some (.normal s) := by
  simp [Component.ofPiece, hs.1, hs.2.1, hs.2.2]

/-- The components of a path that is written with names are these names. -/
theorem filterMap_ofPiece (hps : ∀ s ∈ ps, NamePiece s) :
    ps.filterMap Component.ofPiece = ps.map .normal := by
  induction ps with
  | nil => rfl
  | cons s rest ih =>
    rw [List.filterMap_cons_some (ofPiece_of_namePiece (hps s List.mem_cons_self)), List.map_cons,
      ih fun t ht => hps t (List.mem_cons_of_mem s ht)]

/-- An absolute path is told by its pieces. -/
theorem eq_of_pieces (hp : p.isAbsolute) (hq : q.isAbsolute) (h : p.pieces = q.pieces) : p = q := by
  have hbody : p.body = q.body := by
    rw [← joinSegments_segments p.body, ← joinSegments_segments q.body]
    exact congrArg joinSegments h
  obtain ⟨cs⟩ := p
  obtain ⟨ds⟩ := q
  exact congrArg Path.mk ((chars_of_absolute hp).trans (hbody ▸ (chars_of_absolute hq).symm))

/-- Tidy paths that have the same components are equal. -/
theorem Tidy.eq_of_same (hp : p.Tidy) (hq : q.Tidy) (h : p.same q) : p = q := by
  have hcomponents := same_iff.mp h
  rw [components_of_absolute hp.absolute, components_of_absolute hq.absolute] at hcomponents
  have hmap := (List.cons.inj hcomponents).2
  refine eq_of_pieces hp.absolute hq.absolute ?_
  have hroot {p : Path} (hnil : p.pieces.map Component.normal = []) : False :=
    pieces_ne_nil p (List.map_eq_nil_iff.mp hnil)
  rcases hp.names with hp | hp <;> rcases hq.names with hq | hq
  · rw [hp, hq]
  · rw [hp, filterMap_ofPiece hq] at hmap
    exact (hroot hmap.symm).elim
  · rw [hq, filterMap_ofPiece hp] at hmap
    exact (hroot hmap).elim
  · rw [filterMap_ofPiece hp, filterMap_ofPiece hq] at hmap
    exact (List.map_inj_right fun _ _ h => Component.normal.inj h).mp hmap

/-- The normal form of an absolute path is tidy. -/
theorem tidy_normalize (hp : p.isAbsolute) : p.normalize.Tidy := by
  obtain ⟨ns, hns, hnames⟩ := normalComponents_of_absolute hp
  rw [normalize, hns, render]
  refine ⟨rfl, ?_⟩
  rw [pieces_cons]
  cases ns with
  | nil => exact .inl rfl
  | cons n rest =>
    right
    rw [segments_joinSegments (by simp)]
    · intro s hs
      obtain ⟨c, hc, rfl⟩ := List.mem_map.mp hs
      obtain ⟨t, rfl, hempty, hdot, hup, -⟩ := hnames c hc
      exact ⟨hempty, hdot, hup⟩
    · intro s hs
      obtain ⟨c, hc, rfl⟩ := List.mem_map.mp hs
      obtain ⟨t, rfl, -, -, -, hslash⟩ := hnames c hc
      exact hslash

end Path

namespace FileTree

/-- The root is a directory, however it is written. -/
theorem isFile_root (t : FileTree) : t.isFile ⟨['/', '.']⟩ = false := by
  rfl

theorem readText_root (t : FileTree) : t.readText ⟨['/']⟩ = .error .isADirectory := by
  rfl

end FileTree

namespace Resolution

open LoadHook.Path (Tidy)

variable {t : FileTree} {extensions : List String} {base dir p : Path}

/-- The file found for a tidy path is tidy. -/
theorem tidy_file? (he : Unbroken extensions) (hb : Tidy base)
    (hp : file? t extensions base = some p) : Tidy p := by
  obtain ⟨ds, rfl, hds, hfile⟩ := file?_cases he hp
  obtain ⟨habs, front, last, hfront, happend⟩ := Path.pieces_append hb.absolute hds
  -- a path that goes up at last, or stays at the root, is no file
  have hup : last ++ ds ≠ ['.', '.'] := fun hlast => by
    rw [hlast] at happend
    rw [FileTree.isFile_up habs happend] at hfile
    cases hfile
  refine ⟨habs, ?_⟩
  rw [happend]
  rcases hb.names with hroot | hnames
  · obtain ⟨rfl, rfl⟩ : front = [] ∧ last = [] := by
      have hsingle := List.append_eq_singleton_iff.mp (hfront.symm.trans hroot)
      simpa using hsingle
    by_cases hempty : ds = []
    · exact .inl (by rw [hempty]; rfl)
    · refine .inr fun s hs => ?_
      rw [List.mem_singleton.mp hs]
      refine ⟨hempty, fun hdot => ?_, hup⟩
      have hpath : base.append ds = ⟨['/', '.']⟩ :=
        Path.eq_of_pieces habs rfl (happend.trans (congrArg (fun s => [s]) hdot))
      rw [hpath, FileTree.isFile_root] at hfile
      cases hfile
  · refine .inr fun s hs => ?_
    rw [hfront] at hnames
    rcases List.mem_append.mp hs with hs | hs
    · exact hnames s (List.mem_append_left _ hs)
    · obtain ⟨hempty, hdot, -⟩ := hnames last (by simp)
      rw [List.mem_singleton.mp hs]
      refine ⟨fun h => hempty (List.append_eq_nil_iff.mp h).1, fun h => ?_, hup⟩
      rcases List.append_eq_singleton_iff.mp h with ⟨h, -⟩ | ⟨h, -⟩
      · exact hempty h
      · exact hdot h

/-- The index file of a tidy directory is tidy. -/
theorem tidy_index? (he : Unbroken extensions) (hd : Tidy dir)
    (hp : index? t extensions dir = some p) : Tidy p := by
  obtain ⟨e, hmem, rfl⟩ := List.mem_map.mp (List.mem_of_find?_eq_some hp)
  have hslash : '/' ∉ "index.".toList ++ e.toList := by simpa using he e hmem
  have hname : Path.NamePiece ("index.".toList ++ e.toList) := by simp [Path.NamePiece]
  have hpieces : Path.pieces ⟨"index.".toList ++ e.toList⟩ = ["index.".toList ++ e.toList] :=
    Path.segments_of_not_mem hslash
  rcases hd.names with hroot | hnames
  · have hdir : dir = ⟨['/']⟩ := Path.eq_of_pieces hd.absolute rfl hroot
    rw [hdir]
    refine ⟨rfl, .inr fun s hs => ?_⟩
    have hjoin : Path.pieces ((⟨['/']⟩ : Path) / ⟨"index.".toList ++ e.toList⟩) =
        ["index.".toList ++ e.toList] := hpieces
    rw [hjoin, List.mem_singleton] at hs
    rw [hs]
    exact hname
  · obtain ⟨habs, hmem⟩ := Path.mem_pieces_join (q := ⟨"index.".toList ++ e.toList⟩) hd.absolute rfl
    refine ⟨habs, .inr fun s hs => ?_⟩
    rcases hmem s hs with hs | hs
    · exact hnames s hs
    · rw [hpieces, List.mem_singleton] at hs
      rw [hs]
      exact hname

/-- The main file of a tidy directory is tidy, whatever its manifest says. -/
theorem tidy_directory? (he : Unbroken extensions) (hd : Tidy dir)
    (hp : directory? t extensions dir = some p) : Tidy p := by
  have hentry (main : Path) := Path.tidy_normalize (Path.isAbsolute_join hd.absolute main)
  rcases directory?_cases hp with ⟨main, hp | hp⟩ | hp
  · exact tidy_file? he (hentry main) hp
  · exact tidy_index? he (hentry main) hp
  · exact tidy_index? he hd hp

/-- From an absolute directory a specifier that is a path leads to a tidy path. -/
theorem tidy_resolve {specifier : String} (he : Unbroken extensions) (hd : dir.isAbsolute)
    (hs : isPathLike specifier.toList) (hp : resolve t extensions specifier dir = some p) :
    Tidy p := by
  obtain ⟨base, hb, hp⟩ := List.exists_of_findSome?_eq_some hp
  rw [bases, if_pos hs, List.mem_singleton] at hb
  have hbase : Tidy base := hb ▸ Path.tidy_normalize (Path.isAbsolute_join hd _)
  rcases lookup_cases hp with hp | hp
  · exact tidy_file? he hbase hp
  · exact tidy_directory? he hbase hp

end Resolution

/-- A host is entered at tidy paths. -/
theorem Host.tidy_absolute {t : FileTree} {p q : Path} (h : absolute t p = .ok q) : q.Tidy := by
  unfold absolute at h
  split at h
  · cases h
  · split at h
    · next habs =>
      cases h
      exact Path.tidy_normalize habs
    · cases h
      exact Path.tidy_normalize (Path.isAbsolute_join rfl _)

/-- The directory of a tidy path is absolute, unless the path is the root. -/
theorem Path.Tidy.parent {p : Path} (hp : p.Tidy) (hroot : p ≠ ⟨['/']⟩) :
    (p.parent.getD "").isAbsolute := by
  have hpieces : dropVoid p.isAbsolute p.pieces ≠ [] := by
    rcases hp.names with hnames | hnames
    · exact absurd (eq_of_pieces (q := ⟨['/']⟩) hp.absolute rfl hnames) hroot
    · cases hps : p.pieces with
      | nil => exact absurd hps (pieces_ne_nil p)
      | cons s rest =>
        obtain ⟨hempty, hdot, -⟩ := hnames s (hps ▸ List.mem_cons_self)
        have hvoid : isVoid p.isAbsolute 0 s = false := by simp [isVoid, hempty, hdot]
        simp only [dropVoid, dropVoid.go, hvoid]
        split <;> simp
  unfold Path.parent
  split
  · next hnil => exact absurd hnil hpieces
  · rw [hp.absolute]
    rfl

end LoadHook
