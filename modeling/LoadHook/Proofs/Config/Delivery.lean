import LoadHook.Config.Options
import LoadHook.Proofs.Json.Texts
import LoadHook.Proofs.Path.Canonical

/-!
# What the compiler is told

The project file given to the compiler is read back as the options of the configuration, with
nulls and the options of the command line left out and paths taken from the directory of the
configuration. Nothing else of an option changes on the way.
-/
namespace LoadHook.Options

open Json (Exact depth lookup)

variable {raw : List (String × Json)} {base : Path} {name : String} {α : Type}

/-- Members in order, each name once. -/
abbrev Sorted (members : List (String × α)) : Prop := members.Pairwise fun m n => m.1 < n.1

/-! ## Looking up a name -/

theorem lookup_eq_none {members : List (String × α)} (h : ∀ m ∈ members, m.1 ≠ name) :
    lookup name members = none := by
  rw [lookup, List.lookup_eq_none_iff]
  exact fun m hm => bne_iff_ne.mpr (Ne.symm (h m hm))

/-- An option has the value that its member gives. -/
theorem get?_ofMembers (hraw : Sorted raw) :
    (ofMembers raw base).get? name = (lookup name raw).bind (convert base name) := by
  unfold get? ofMembers
  induction raw with
  | nil => simp [lookup]
  | cons m rest ih =>
    obtain ⟨k, v⟩ := m
    obtain ⟨hfirst, hrest⟩ := List.pairwise_cons.mp hraw
    have ih := ih hrest
    by_cases hk : name = k
    · subst hk
      have hsome : lookup name ((name, v) :: rest) = some v := by simp [lookup]
      rw [hsome, Option.bind_some]
      cases hv : convert base name v with
      | some j => simp [hv, lookup]
      | none =>
        have hnone : lookup name rest = none := lookup_eq_none fun m hm e =>
          String.lt_irrefl _ (e ▸ hfirst m hm)
        rw [hnone] at ih
        simpa [hv] using ih
    · have hne : (name == k) = false := beq_eq_false_iff_ne.mpr hk
      have htail : lookup name ((k, v) :: rest) = lookup name rest := by
        simp [lookup, List.lookup_cons, hne]
      rw [htail, ← ih]
      cases hv : convert base k v with
      | some j => simp [hv, lookup, List.lookup_cons, hne]
      | none => simp [hv]

/-! ## The project as a document -/

/-- The members of the options in a project. -/
def given (o : Options) : List (String × Json) :=
  o.entries.filter fun e => !reservedOptions.contains e.1

theorem get?_given (o : Options) :
    lookup name o.given = if reservedOptions.contains name then none else o.get? name := by
  rw [given, Json.lookup_filter fun k => !reservedOptions.contains k]
  cases reservedOptions.contains name <;> rfl

/-- The members of a project are in order. -/
theorem sorted_project (o : Options) (source : Path) :
    Sorted [("compilerOptions", Json.obj o.given), ("files", .arr [.str source.text]),
      ("include", .arr [])] := by
  have hnames : ["compilerOptions", "files", "include"].Pairwise (· < ·) := by decide
  exact (List.pairwise_map (f := Prod.fst)).mp hnames

theorem project_eq (o : Options) (source : Path) :
    o.project source = .obj [("compilerOptions", .obj o.given),
      ("files", .arr [.str source.text]), ("include", .arr [])] :=
  congrArg Json.obj (Json.sortMembers_sorted (sorted_project o source))

/-- Making an item absolute keeps its form. -/
theorem exact_resolveItem {j : Json} (hj : Exact j) :
    Exact (resolveItem base j) ∧ depth (resolveItem base j) = depth j := by
  cases hj with
  | str s => exact ⟨.str _, by simp [resolveItem, depth]⟩
  | null => exact ⟨.null, rfl⟩
  | bool b => exact ⟨.bool b, rfl⟩
  | int n low high => exact ⟨.int n low high, rfl⟩
  | arr items exact => exact ⟨.arr items exact, rfl⟩
  | obj members sorted exact => exact ⟨.obj members sorted exact, rfl⟩

/-- Making the paths of an option absolute keeps the form of its value. -/
theorem exact_convert {j k : Json} (hj : Exact j) (h : convert base name j = some k) :
    Exact k ∧ depth k ≤ depth j := by
  cases hj with
  | null => cases h
  | bool b => cases h; exact ⟨.bool b, (Nat.le_refl _)⟩
  | int n low high => cases h; exact ⟨.int n low high, (Nat.le_refl _)⟩
  | str s => cases h; exact ⟨.str _, by simp [depth]⟩
  | obj members sorted exact => cases h; exact ⟨.obj members sorted exact, (Nat.le_refl _)⟩
  | arr items exact =>
    cases h
    split
    · refine ⟨.arr _ fun j hj => ?_, Nat.succ_le_succ (Json.itemDepth_le.mpr fun j hj => ?_)⟩
      all_goals obtain ⟨i, hi, rfl⟩ := List.mem_map.mp hj
      · exact (exact_resolveItem (exact i hi)).1
      · rw [(exact_resolveItem (exact i hi)).2]
        exact Json.itemDepth_le.mp (Nat.le_refl _) i hi
    · exact ⟨.arr items exact, (Nat.le_refl _)⟩

/-- The options of a project come from members of the same names. -/
theorem mem_given {m : String × Json} (hm : m ∈ (ofMembers raw base).given) :
    ∃ j, (m.1, j) ∈ raw ∧ convert base m.1 j = some m.2 := by
  obtain ⟨⟨k, j⟩, hj, hconvert⟩ := List.mem_filterMap.mp (List.mem_filter.mp hm).1
  obtain ⟨v, hv, rfl⟩ := Option.map_eq_some_iff.mp hconvert
  exact ⟨j, hj, hv⟩

/-- The options of a project are a document of the same form and no deeper. -/
theorem exact_given (hraw : Exact (.obj raw)) :
    Exact (.obj (ofMembers raw base).given) ∧
      depth (.obj (ofMembers raw base).given) ≤ depth (.obj raw) := by
  cases hraw with
  | obj raw sorted exact =>
    have hsorted : Sorted (ofMembers raw base).given := by
      refine List.Pairwise.filter _ (List.Pairwise.filterMap _ (fun m n hlt b hb d hd => ?_) sorted)
      obtain ⟨v, -, rfl⟩ := Option.map_eq_some_iff.mp hb
      obtain ⟨u, -, rfl⟩ := Option.map_eq_some_iff.mp hd
      exact hlt
    refine ⟨.obj _ hsorted fun m hm => ?_,
      Nat.succ_le_succ (Json.memberDepth_le.mpr fun m hm => ?_)⟩
    all_goals obtain ⟨j, hj, hconvert⟩ := mem_given hm
    · exact (exact_convert (exact _ hj) hconvert).1
    · exact Nat.le_trans (exact_convert (exact _ hj) hconvert).2
        (Json.memberDepth_le.mp (Nat.le_refl _) _ hj)

/-! ## What is read back -/

/-- What is given for the names of a configuration's members. -/
structure Delivered (base : Path) (raw options : List (String × Json)) : Prop where
  absent : ∀ name, lookup name raw = none ∨ lookup name raw = some .null ∨
    name ∈ reservedOptions → lookup name options = none
  path : ∀ name ∈ pathOptions, ∀ s, lookup name raw = some (.str s) →
    (base / Path.ofString s).normalize.isAbsolute ∧
      lookup name options = some (.str (base / Path.ofString s).normalize.text)
  paths : ∀ name ∈ pathListOptions, ∀ items, lookup name raw = some (.arr items) →
    ∃ resolved, lookup name options = some (.arr resolved) ∧ resolved.length = items.length ∧
      ∀ i (hi : i < items.length) (hr : i < resolved.length),
        (∀ s, items[i] = .str s →
          (base / Path.ofString s).normalize.isAbsolute ∧
            resolved[i] = .str (base / Path.ofString s).normalize.text) ∧
        ((∀ s, items[i] ≠ .str s) → resolved[i] = items[i])
  same : ∀ name j, lookup name raw = some j → j ≠ .null → name ∉ reservedOptions →
    (name ∈ pathOptions → ∀ s, j ≠ .str s) → (name ∈ pathListOptions → ∀ items, j ≠ .arr items) →
    lookup name options = some j

theorem delivered_given (hraw : Sorted raw) (hbase : base.isAbsolute) :
    Delivered base raw (ofMembers raw base).given := by
  have hget : ∀ name, lookup name (ofMembers raw base).given =
      if reservedOptions.contains name then none
      else (lookup name raw).bind (convert base name) := fun name => by
    rw [get?_given, get?_ofMembers hraw]
  have hpath : ∀ s : String, (base / Path.ofString s).normalize.isAbsolute := fun s =>
    (Path.canonical_normalize (Path.isAbsolute_join hbase _)).absolute
  have hfree : ∀ name, name ∈ pathOptions ∨ name ∈ pathListOptions →
      reservedOptions.contains name = false := by
    simp only [pathOptions, pathListOptions, List.mem_cons, List.not_mem_nil, or_false]
    rintro name ((rfl | rfl | rfl | rfl | rfl | rfl | rfl) | rfl | rfl) <;> decide
  refine ⟨fun name h => ?_, fun name hname s hs => ⟨hpath s, ?_⟩, fun name hname items hitems => ?_,
    fun name j hj hnull hreserved hscalar hlist => ?_⟩
  · rw [hget]
    split
    · rfl
    · next hnot =>
      rcases h with h | h | h
      · rw [h]; rfl
      · rw [h]; rfl
      · exact absurd (List.contains_iff_mem.mpr h) hnot
  · rw [hget, hfree name (.inl hname), hs]
    simp [convert, hname, resolvePath]
  · refine ⟨items.map (resolveItem base), ?_, List.length_map _,
      fun i hi hr => ⟨fun s hs => ?_, ?_⟩⟩
    · rw [hget, hfree name (.inr hname), hitems]
      simp [convert, hname]
    · rw [List.getElem_map, hs]
      exact ⟨hpath s, rfl⟩
    · intro hother
      rw [List.getElem_map]
      cases hitem : items[i] with
      | str s => exact absurd hitem (hother s)
      | _ => rfl
  · rw [hget, hj, if_neg fun h => hreserved (List.contains_iff_mem.mp h), Option.bind_some]
    cases j with
    | null => exact absurd rfl hnull
    | str s =>
      have hnot : name ∉ pathOptions := fun h => hscalar h s rfl
      simp [convert, hnot]
    | arr items =>
      have hnot : name ∉ pathListOptions := fun h => hlist h items rfl
      simp [convert, hnot]
    | _ => rfl

/-- The project that is given to the compiler is read back as the options of the
configuration, each of them the same or, if it is a path, made absolute. -/
theorem parse_project (hraw : Exact (.obj raw)) (hdepth : depth (.obj raw) < Json.depthLimit)
    (hbase : base.isAbsolute) (source : Path) :
    ∃ options, Json.parse ((ofMembers raw base).project source).compact =
        .ok (.obj [("compilerOptions", .obj options), ("files", .arr [.str source.text]),
          ("include", .arr [])]) ∧
      Delivered base raw options := by
  obtain ⟨hexact, hle⟩ : Exact (.obj (ofMembers raw base).given) ∧ _ := exact_given hraw
  have hproject : Exact ((ofMembers raw base).project source) := by
    rw [project_eq]
    refine .obj _ (sorted_project _ source) fun m hm => ?_
    simp only [List.mem_cons, List.not_mem_nil, or_false] at hm
    rcases hm with rfl | rfl | rfl
    · exact hexact
    · exact .arr _ (by simpa using Exact.str source.text)
    · exact .arr _ (by simp)
  have hproject_depth : depth ((ofMembers raw base).project source) ≤ Json.depthLimit := by
    rw [project_eq]
    simp only [depth, Json.memberDepth, Json.itemDepth] at hle hdepth ⊢
    omega
  refine ⟨_, ?_, delivered_given ?_ hbase⟩
  · rw [hproject.parse_compact hproject_depth, project_eq]
  · cases hraw with
    | obj raw sorted exact => exact sorted

theorem parse_project_outDir :
    ∃ options, Json.parse ((ofMembers [("lib", .arr [.null]), ("outDir", .str "../out")]
          "/app").project "/app/\"a\".ts").compact =
        .ok (.obj [("compilerOptions", .obj options), ("files", .arr [.str "/app/\"a\".ts"]),
          ("include", .arr [])]) ∧
      lookup "outDir" options = some (.str "/out") ∧
      lookup "lib" options = some (.arr [.null]) := by
  have hraw : Exact (.obj [("lib", .arr [.null]), ("outDir", .str "../out")]) := by
    refine .obj _ (by decide) fun m hm => ?_
    simp only [List.mem_cons, List.not_mem_nil, or_false] at hm
    rcases hm with rfl | rfl
    · exact .arr _ (by simpa using Exact.null)
    · exact .str _
  have hbase : ("/app" : Path).isAbsolute := rfl
  obtain ⟨options, hparse, hoptions⟩ := parse_project hraw (by decide) hbase "/app/\"a\".ts"
  refine ⟨options, hparse, ?_, ?_⟩
  · exact (hoptions.path "outDir" (by decide) "../out" rfl).2
  · exact hoptions.same "lib" _ rfl (by simp) (by decide) (by simp)
      fun h => absurd h (by decide)

end LoadHook.Options
