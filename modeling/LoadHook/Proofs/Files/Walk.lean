import LoadHook.Files.Tree
import LoadHook.Proofs.Path.Pieces

/-!
# Walks that end by staying or going up

Whoever stays where he is, or goes up, comes from a directory into a directory. So a path whose
last piece is `.` or `..` leads to no file.
-/
namespace LoadHook.FileTree

variable {t : FileTree} {place directory : Place} {names rest : List Name} {dots : Name}
  {follow : Bool}

/-- The name of the directory above. -/
def upName : Name := ['.', '.']

/-- A name that stays in a directory or goes up. -/
def IsDots (s : Name) : Prop := s = ['.'] ∨ s = upName

theorem not_isDots_iff {s : Name} : ¬ IsDots s ↔ s ≠ ['.'] ∧ s ≠ ['.', '.'] := not_or

theorem walkNames_here :
    t.walkNames follow directory (['.'] :: rest) = t.walkNames follow directory rest := by
  rw [walkNames, if_pos rfl]

theorem walkNames_up :
    t.walkNames follow directory (upName :: rest) = t.walkNames follow directory.dropLast rest := by
  rw [upName, walkNames, if_neg (by decide), if_pos rfl]

theorem walkNames_long {s : Name} (hdots : ¬ IsDots s) (hlong : nameLimit < byteLength s) :
    t.walkNames follow directory (s :: rest) = .failed .nameTooLong := by
  obtain ⟨hdot, hup⟩ := not_isDots_iff.mp hdots
  rw [walkNames, if_neg hdot, if_neg hup, if_pos hlong]

/-- Where a name leads that neither stays nor goes up, nor is too long. -/
theorem walkNames_name {s : Name} (hdots : ¬ IsDots s) (hshort : ¬ nameLimit < byteLength s) :
    t.walkNames follow directory (s :: rest) =
      match t.node? (directory ++ [s]) with
      | none => if rest.isEmpty then .spot (.missing directory s) else .failed .notFound
      | some (.dir _) => t.walkNames follow (directory ++ [s]) rest
      | some (.link target) =>
        if rest.isEmpty && !follow then .spot (.found (directory ++ [s]) (.link target))
        else .link directory target rest
      | some node =>
        if rest.isEmpty then .spot (.found (directory ++ [s]) node)
        else .failed .notADirectory := by
  obtain ⟨hdot, hup⟩ := not_isDots_iff.mp hdots
  rw [walkNames]
  exact (if_neg hdot).trans ((if_neg hup).trans (if_neg hshort))

/-- A place of a directory that only directories lead to. -/
def Reached (t : FileTree) (place : Place) : Prop :=
  ∀ above, above <+: place → ∃ m, t.node? above = some (.dir m)

theorem reached_root (t : FileTree) : t.Reached [] := by
  intro above h
  rw [List.prefix_nil.mp h]
  exact ⟨_, rfl⟩

theorem Reached.up (h : t.Reached place) : t.Reached place.dropLast :=
  fun above ha => h above (ha.trans (List.dropLast_prefix place))

theorem Reached.down {s : Name} {m : Time} (h : t.Reached place)
    (hs : t.node? (place ++ [s]) = some (.dir m)) : t.Reached (place ++ [s]) := by
  intro above ha
  rcases List.prefix_concat_iff.mp ha with rfl | ha
  · exact ⟨m, hs⟩
  · exact h above ha

/-- Where a walk may end that stays or goes up at last: in a directory, in a failure, or at a link
on its way. -/
def DotsStop (t : FileTree) (dots : Name) : Stop → Prop
  | .spot (.found _ (.dir _)) | .failed _ => True
  | .spot _ => False
  | .link directory _ rest => t.Reached directory ∧ ∃ front, rest = front ++ [dots]

theorem dotsStop_walkNames (follow : Bool) (names : List Name) (hdots : IsDots dots)
    (h : t.Reached directory) :
    t.DotsStop dots (t.walkNames follow directory (names ++ [dots])) := by
  induction names generalizing directory with
  | nil =>
    rw [List.nil_append]
    rcases hdots with rfl | rfl
    · obtain ⟨m, hm⟩ := h directory (List.prefix_refl _)
      rw [walkNames_here, walkNames, hm]
      trivial
    · obtain ⟨m, hm⟩ := h.up directory.dropLast (List.prefix_refl _)
      rw [walkNames_up, walkNames, hm]
      trivial
  | cons s names ih =>
    rw [List.cons_append]
    by_cases hs : IsDots s
    · rcases hs with rfl | rfl
      · rw [walkNames_here]
        exact ih h
      · rw [walkNames_up]
        exact ih h.up
    · by_cases hlong : nameLimit < byteLength s
      · rw [walkNames_long hs hlong]
        trivial
      · have hrest : (names ++ [dots]).isEmpty = false := by simp
        rw [walkNames_name hs hlong]
        simp only [hrest, Bool.false_eq_true, if_false, Bool.false_and]
        split
        · trivial
        · next hdir => exact ih (h.down hdir)
        · exact ⟨h, names, rfl⟩
        · trivial

theorem dir_of_dotsStop {s : Spot} (h : t.DotsStop dots (.spot s)) :
    ∃ place m, s = .found place (.dir m) := by
  match s, h with
  | .found place (.dir m), _ => exact ⟨place, m, rfl⟩

/-- A walk ends where its names lead, or goes on behind a link. -/
theorem walk_eq_ok_iff {links : Nat} {s : Spot} :
    t.walk follow links directory names = .ok s ↔
      t.walkNames follow directory names = .spot s ∨
        ∃ n d target rest, links = n + 1 ∧
          t.walkNames follow directory names = .link d target rest ∧
          t.walk follow n (if target.isAbsolute then [] else d) (namesOf target ++ rest) =
            .ok s := by
  constructor
  · intro h
    unfold walk at h
    split at h
    · next hspot =>
      cases h
      exact .inl hspot
    · cases h
    · cases h
    · next n hlink => exact .inr ⟨_, _, _, _, rfl, hlink, h⟩
  · rintro (hspot | ⟨n, d, target, rest, rfl, hlink, h⟩)
    · rw [walk.eq_def, hspot]
    · rw [walk.eq_def, hlink]
      exact h

/-- A walk that stays or goes up at last finds directories only. -/
theorem dir_of_walk {links : Nat} {s : Spot} (hdots : IsDots dots) (h : t.Reached directory)
    (hw : t.walk follow links directory (names ++ [dots]) = .ok s) :
    ∃ place m, s = .found place (.dir m) := by
  induction links using Nat.strongRecOn generalizing directory names with
  | ind links ih =>
    have hstop := dotsStop_walkNames follow names hdots h
    rcases walk_eq_ok_iff.mp hw with hspot | ⟨n, d, target, rest, rfl, hlink, hw⟩
    · rw [hspot] at hstop
      exact dir_of_dotsStop hstop
    · rw [hlink] at hstop
      obtain ⟨hd, front, rfl⟩ := hstop
      rw [← List.append_assoc] at hw
      refine ih n (Nat.lt_succ_self n) ?_ hw
      split
      · exact reached_root t
      · exact hd

/-- What is located is reached by a walk along the names of the path. -/
theorem walk_of_locate {p : Path} {s : Spot} (h : t.locate p follow = .ok s) :
    t.walk follow linkLimit (if p.isAbsolute then [] else t.cwd) (namesOf p) = .ok s := by
  unfold locate at h
  split at h
  · cases h
  · split at h
    · cases h
    · split at h
      · cases h
      · exact h

theorem locate_of_stat {p : Path} {node : Node} (h : t.stat p = .ok (place, node)) :
    t.locate p true = .ok (.found place node) := by
  unfold stat at h
  cases hl : t.locate p true with
  | error cause =>
    rw [hl] at h
    cases h
  | ok spot =>
    rw [hl] at h
    cases spot with
    | found place node =>
      cases h
      rfl
    | missing directory name => cases h

/-- The names along a path end as its pieces do, unless it ends in a separator. -/
theorem namesOf_concat {p : Path} {front : List Name} {s : Name} (hs : s ≠ [])
    (hlast : p.pieces = front ++ [s]) : ∃ names, namesOf p = names ++ [s] := by
  obtain ⟨cs, hcs⟩ := Path.joinSegments_concat front s
  have hbody : p.body = cs ++ s := by
    rw [← hcs, ← hlast, Path.pieces, Path.joinSegments_segments]
  obtain ⟨ds, hds⟩ : ∃ ds, p.chars = ds ++ s := by
    cases hp : p.isAbsolute with
    | true => exact ⟨'/' :: cs, by rw [Path.chars_of_absolute hp, hbody, List.cons_append]⟩
    | false => exact ⟨cs, by simpa [Path.body, hp] using hbody⟩
  have hslash : (p.chars.getLast? == some '/') = false := by
    have hmem : '/' ∉ s := Path.not_mem_of_mem_pieces (p := p) (hlast ▸ by simp)
    obtain ⟨rest, c, rfl⟩ : ∃ rest c, s = rest ++ [c] :=
      ⟨_, _, (List.dropLast_concat_getLast hs).symm⟩
    rw [hds, ← List.append_assoc, List.getLast?_concat, beq_eq_false_iff_ne]
    rintro ⟨⟩
    exact hmem (by simp)
  exact ⟨front.filter (· ≠ []), by simp [namesOf, hlast, hslash, hs]⟩

/-- A path that stays or goes up at last is no file. -/
theorem isFile_dots {p : Path} {front : List Name} (hp : p.isAbsolute ∨ t.Reached t.cwd)
    (hdots : IsDots dots) (hlast : p.pieces = front ++ [dots]) : t.isFile p = false := by
  have hne : dots ≠ [] := by
    rcases hdots with rfl | rfl <;> simp [upName]
  obtain ⟨names, hnames⟩ := namesOf_concat hne hlast
  have hstart : t.Reached (if p.isAbsolute then [] else t.cwd) := by
    split
    · exact reached_root t
    · next hrel => exact hp.resolve_left hrel
  unfold isFile
  split
  · next hs =>
    have hwalk := walk_of_locate (locate_of_stat hs)
    rw [hnames] at hwalk
    obtain ⟨_, _, hdir⟩ := dir_of_walk hdots hstart hwalk
    cases hdir
  · rfl

/-- A path that goes up at last is no file. -/
theorem isFile_up {p : Path} {front : List Name} (hp : p.isAbsolute)
    (hlast : p.pieces = front ++ [upName]) : t.isFile p = false :=
  isFile_dots (.inl hp) (.inr rfl) hlast

end LoadHook.FileTree
