import LoadHook.Proofs.Module.Search
import LoadHook.Proofs.Registry.Registration

/-!
# More extensions

Extensions that are registered later come last wherever extensions are tried. So a file that is
found without a directory is found again, and where anything is found something is found again,
though it may be another file: a new extension can lead to a file before the manifest or the index
of a directory is asked for, or in a nearer directory.
-/
namespace LoadHook

namespace Resolution

variable {t : FileTree} {extensions more : List String} {specifier : String}
  {base dir p : Path}

/-- A file stays the first that is found for a path. -/
theorem file?_widened (h : extensions <+: more) (hp : file? t extensions base = some p) :
    file? t more base = some p := by
  obtain ⟨added, rfl⟩ := h
  unfold file? at hp ⊢
  split
  · next hfile => rwa [if_pos hfile] at hp
  · next hfile =>
    rw [if_neg hfile] at hp
    rw [List.map_append, List.find?_append, hp, Option.some_or]

theorem index?_widened (h : extensions <+: more) (hp : index? t extensions dir = some p) :
    index? t more dir = some p := by
  obtain ⟨added, rfl⟩ := h
  unfold index? at hp ⊢
  rw [List.map_append, List.find?_append, hp, Option.some_or]

theorem isSome_directory? (h : extensions <+: more) (hs : (directory? t extensions dir).isSome) :
    (directory? t more dir).isSome := by
  obtain ⟨p, hp⟩ := Option.isSome_iff_exists.mp hs
  unfold directory? at hp ⊢
  split at hp
  · next hdir =>
    rw [if_pos hdir, Option.isSome_or, Bool.or_eq_true]
    rcases Option.or_eq_some_iff.mp hp with hp | ⟨-, hp⟩
    · left
      obtain ⟨main, hmain, hp⟩ := Option.bind_eq_some_iff.mp hp
      rw [hmain, Option.bind_some, Option.isSome_or, Bool.or_eq_true]
      rcases Option.or_eq_some_iff.mp hp with hp | ⟨-, hp⟩
      · exact .inl (by rw [file?_widened h hp]; rfl)
      · exact .inr (by rw [index?_widened h hp]; rfl)
    · exact .inr (by rw [index?_widened h hp]; rfl)
  · cases hp

theorem isSome_lookup (h : extensions <+: more) (hs : (lookup t extensions base).isSome) :
    (lookup t more base).isSome := by
  rw [lookup, Option.isSome_or, Bool.or_eq_true] at hs ⊢
  refine hs.imp (fun hs => ?_) (isSome_directory? h)
  obtain ⟨p, hp⟩ := Option.isSome_iff_exists.mp hs
  rw [file?_widened h hp]
  rfl

/-- Where a specifier leads to a file it does so with more extensions. -/
theorem isSome_resolve (h : extensions <+: more)
    (hs : (resolve t extensions specifier dir).isSome) : (resolve t more specifier dir).isSome := by
  rw [resolve, List.findSome?_isSome_iff] at hs ⊢
  obtain ⟨base, hbase, hs⟩ := hs
  exact ⟨base, hbase, isSome_lookup h hs⟩

/-- Where a path is a file, or is one with an extension at its end, it is not asked whether the
path is a directory. -/
theorem file?_of_isFile (hfile : t.isFile p)
    (hplace : p = base ∨ ∃ e ∈ extensions, p = base.append ('.' :: e.toList)) :
    ∃ q, file? t extensions base = some q := by
  unfold file?
  split
  · exact ⟨base, rfl⟩
  · next hbase =>
    rcases hplace with rfl | ⟨e, he, rfl⟩
    · exact absurd hfile hbase
    · exact Option.isSome_iff_exists.mp
        (List.find?_isSome.mpr ⟨_, List.mem_map_of_mem he, hfile⟩)

/-- The file that a path leads to stays, if it is the path or the path with an extension. -/
theorem lookup_widened (h : extensions <+: more) (hfile : t.isFile p)
    (hplace : p = base ∨ ∃ e ∈ extensions, p = base.append ('.' :: e.toList))
    (hp : lookup t extensions base = some p) : lookup t more base = some p := by
  obtain ⟨q, hq⟩ := file?_of_isFile hfile hplace
  rw [lookup, hq, Option.some_or] at hp
  rw [lookup, file?_widened h hq, Option.some_or, hp]

end Resolution

namespace Host

open Resolution

/-- What registrations leave of where a specifier leads.

Where it led to a file it still leads to one. It leads to the same as before if only extensions
are registered that were so already, whatever that was; and it leads to the same file if it is a
path and the file is that path or the path with an extension. -/
structure WideningLaw (h : Host) (calls : List (String × Handler)) (specifier : String)
    (dir : Path) : Prop where
  succeeds : ∀ p, h.resolve specifier dir = .ok p →
    ∃ q, (h.registerAll calls).resolve specifier dir = .ok q
  unchanged : (∀ c ∈ calls, Registry.bareExtension c.1 ∈ h.registry.extensions) →
    (h.registerAll calls).resolve specifier dir = h.resolve specifier dir
  exact : IsPath specifier → ∀ p, h.resolve specifier dir = .ok p →
    (p = (dir / Path.ofString specifier).normalize ∨
      ∃ e ∈ h.registry.extensions,
        p = (dir / Path.ofString specifier).normalize.append ('.' :: e.toList)) →
    (h.registerAll calls).resolve specifier dir = .ok p

/-- Registrations never take away where a specifier leads. -/
theorem widening_law (h : Host) (calls : List (String × Handler)) (specifier : String)
    (dir : Path) : h.WideningLaw calls specifier dir := by
  have hmore : h.registry.extensions <+: (h.registry.registerAll calls).extensions :=
    h.registry.prefix_registerAll calls
  refine ⟨fun p hp => ?_, fun hcalls => ?_, fun hpath p hp hplace => ?_⟩
  · rw [resolve_eq_ok_iff] at hp
    obtain ⟨q, hq⟩ := Option.isSome_iff_exists.mp
      (isSome_resolve hmore (Option.isSome_of_eq_some hp))
    exact ⟨q, by rw [registerAll_eq]; exact resolve_eq_ok_iff.mpr hq⟩
  · simp only [registerAll_eq, Host.resolve, Registry.extensions_registerAll hcalls]
  · have hfile : h.workspace.world.tree.isFile p := isFile_of_resolve hp
    rw [resolve_eq_ok_iff, resolve_path hpath] at hp
    rw [registerAll_eq]
    exact resolve_eq_ok_iff.mpr
      ((resolve_path hpath).trans (lookup_widened hmore hfile hplace hp))

end Host

end LoadHook
