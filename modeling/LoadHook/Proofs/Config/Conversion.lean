import LoadHook.Proofs.Compile.Unit
import LoadHook.Proofs.Json.Members

/-!
# Making options absolute

The options of a configuration name every path in full and in its normal form. So they mean the same
wherever they are read from: taken from another directory they stay as they are. Each option is made
absolute by itself, whatever other options there are.
-/
namespace LoadHook.Options

open Json (lookup union)

variable {raw more : List (String × Json)} {base : Path} {name : String}

/-! ## Paths -/

/-- A path taken from an absolute one is absolute and normal. -/
theorem ofString_resolvePath (hbase : base.isAbsolute) (s : String) :
    (Path.ofString (resolvePath base s)).isAbsolute ∧
      (Path.ofString (resolvePath base s)).normalize = Path.ofString (resolvePath base s) := by
  have hpath : Path.ofString (resolvePath base s) = (base / Path.ofString s).normalize :=
    Path.ofString_text _
  rw [hpath]
  exact ⟨(Path.isAbsolute_normalize _).trans (Path.isAbsolute_join hbase _),
    (Path.reduced_normalize _).normalize_eq⟩

/-- An absolute path is the same from everywhere. -/
theorem resolvePath_resolvePath (hbase : base.isAbsolute) (other : Path) (s : String) :
    resolvePath other (resolvePath base s) = resolvePath base s := by
  obtain ⟨habsolute, hnormal⟩ := ofString_resolvePath hbase s
  have hjoin : other / Path.ofString (resolvePath base s) = Path.ofString (resolvePath base s) :=
    if_pos habsolute
  rw [resolvePath, hjoin, hnormal, Path.text_ofString]

/-! ## Options -/

theorem resolveItem_resolveItem (hbase : base.isAbsolute) (other : Path) (j : Json) :
    resolveItem other (resolveItem base j) = resolveItem base j := by
  cases j with
  | str s => exact congrArg Json.str (resolvePath_resolvePath hbase other s)
  | _ => rfl

/-- What is converted stays as it is. -/
theorem convert_of_convert (hbase : base.isAbsolute) (other : Path) {j k : Json}
    (h : convert base name j = some k) : convert other name k = some k := by
  cases j with
  | null => cases h
  | str s =>
    cases h
    rw [convert]
    split
    · rw [resolvePath_resolvePath hbase]
    · rfl
  | arr items =>
    cases h
    rw [convert]
    split
    · rw [List.map_map]
      congr 2
      exact List.map_congr_left fun j _ => resolveItem_resolveItem hbase other j
    · rfl
  | _ =>
    cases h
    rfl

theorem exists_convert {m : String × Json} (hm : m ∈ (ofMembers raw base).entries) :
    ∃ j, (m.1, j) ∈ raw ∧ convert base m.1 j = some m.2 := by
  obtain ⟨⟨k, j⟩, hj, hconvert⟩ := List.mem_filterMap.mp hm
  obtain ⟨v, hv, rfl⟩ := Option.map_eq_some_iff.mp hconvert
  exact ⟨j, hj, hv⟩

/-- Options that are converted are the same from every directory. -/
theorem ofMembers_ofMembers (raw : List (String × Json)) (hbase : base.isAbsolute) (other : Path) :
    ofMembers (ofMembers raw base).entries other = ofMembers raw base := by
  have hself : ∀ m ∈ (ofMembers raw base).entries,
      (convert other m.1 m.2).map (m.1, ·) = some m := by
    intro m hm
    obtain ⟨j, -, hj⟩ := exists_convert hm
    rw [convert_of_convert hbase other hj]
    rfl
  have hentries := List.filterMap_congr hself
  rw [List.filterMap_some] at hentries
  exact congrArg Options.mk hentries

/-- The paths among converted options are what paths are converted to. -/
theorem resolved_of_tells {s : String} (h : Tells (ofMembers raw base).entries s) :
    ∃ r, s = resolvePath base r := by
  cases h with
  | value hname h =>
    obtain ⟨j, -, hconvert⟩ := exists_convert h
    obtain ⟨r, -, hs⟩ := str_of_convert hname hconvert
    exact ⟨r, hs⟩
  | item hname h hs =>
    obtain ⟨j, -, hconvert⟩ := exists_convert h
    obtain ⟨given, -, rfl⟩ := arr_of_convert hname hconvert
    obtain ⟨i, -, hitem⟩ := List.mem_map.mp hs
    obtain ⟨r, -, hr⟩ := str_of_resolveItem hitem
    exact ⟨r, hr⟩

theorem tells_of_outDir {o : Options} {d : Path} (h : o.outDir = some d) :
    ∃ s, d = Path.ofString s ∧ Tells o.entries s := by
  obtain ⟨s, hs, rfl⟩ := Option.map_eq_some_iff.mp h
  obtain ⟨j, hj, hstr⟩ := Option.bind_eq_some_iff.mp hs
  cases j with
  | str r =>
    cases hstr
    exact ⟨_, rfl, .value (by decide : "outDir" ∈ pathOptions) (Json.mem_of_lookup hj)⟩
  | _ => cases hstr

/-! ## Name by name -/

theorem sorted_ofMembers (hraw : Sorted raw) (base : Path) :
    Sorted (ofMembers raw base).entries := by
  refine List.Pairwise.filterMap _ (fun m n hlt b hb d hd => ?_) hraw
  obtain ⟨v, -, rfl⟩ := Option.map_eq_some_iff.mp hb
  obtain ⟨u, -, rfl⟩ := Option.map_eq_some_iff.mp hd
  exact hlt

/-- Options of different names do not know of each other. -/
theorem ofMembers_union (hraw : Sorted raw) (hmore : Sorted more)
    (hapart : ∀ m ∈ raw, ∀ n ∈ more, m.1 ≠ n.1) (base : Path) :
    ofMembers (union raw more) base =
      ⟨union (ofMembers raw base).entries (ofMembers more base).entries⟩ := by
  have hunion := Json.inOrder_union hraw more
  have hsorted := sorted_ofMembers hmore base
  refine congrArg Options.mk (Json.InOrder.ext (sorted_ofMembers hunion base)
    (Json.inOrder_union (sorted_ofMembers hraw base) _) fun name => ?_)
  have hget {members : List (String × Json)} (h : Sorted members) :
      lookup name (ofMembers members base).entries =
        (lookup name members).bind (convert base name) := get?_ofMembers h
  rw [Json.lookup_union _ hsorted, hget hraw, hget hmore]
  refine (hget hunion).trans ?_
  rw [Json.lookup_union _ hmore]
  cases hm : lookup name more with
  | none => rfl
  | some k =>
    have hnone : lookup name raw = none :=
      lookup_eq_none fun m hmem e => hapart m hmem _ (Json.mem_of_lookup hm) e
    rw [hnone, Option.bind_none, Option.or_none, Option.or_none]

/-- What becomes of options when they are taken from a directory.

Once they are, they stay as they are from whatever directory they are taken again, because every
path among them is absolute and its own normal form, that of the directory for output not excepted.
And whatever the directory, options of different names are taken from it as if the others were not
there. -/
structure ConversionLaw (raw : List (String × Json)) (base : Path) : Prop where
  settled : ∀ other, ofMembers (ofMembers raw base).entries other = ofMembers raw base
  paths : ∀ s, Tells (ofMembers raw base).entries s →
    (Path.ofString s).isAbsolute ∧ (Path.ofString s).normalize.text = s
  outDir : ∀ d, (ofMembers raw base).outDir = some d → d.isAbsolute ∧ d.normalize = d
  union : ∀ dir more, Sorted more → (∀ m ∈ raw, ∀ n ∈ more, m.1 ≠ n.1) →
    ofMembers (Json.union raw more) dir =
      ⟨Json.union (ofMembers raw dir).entries (ofMembers more dir).entries⟩

/-- Making options absolute once is as good as making them absolute again and again. -/
theorem conversion_law (hraw : Sorted raw) (hbase : base.isAbsolute) : ConversionLaw raw base where
  settled := ofMembers_ofMembers raw hbase
  paths s hs := by
    obtain ⟨r, rfl⟩ := resolved_of_tells hs
    obtain ⟨habsolute, hnormal⟩ := ofString_resolvePath hbase r
    exact ⟨habsolute, by rw [hnormal, Path.text_ofString]⟩
  outDir d hd := by
    obtain ⟨s, rfl, hs⟩ := tells_of_outDir hd
    obtain ⟨r, rfl⟩ := resolved_of_tells hs
    exact ofString_resolvePath hbase r
  union dir more hmore hapart := ofMembers_union hraw hmore hapart dir

/-- A path that leads above the root, and one in a list beside what is no path. -/
theorem conversion_law_above :
    Sorted [("outDir", Json.str "../../../o/."), ("typeRoots", .arr [.null, .str ""])] ∧
      ("/p/q" : Path).isAbsolute ∧
      ofMembers [("outDir", .str "/o"), ("typeRoots", .arr [.null, .str "/p/q"])] "x" =
        ofMembers [("outDir", .str "../../../o/."), ("typeRoots", .arr [.null, .str ""])]
          "/p/q" := by
  have hraw :
      Sorted [("outDir", Json.str "../../../o/."), ("typeRoots", .arr [.null, .str ""])] := by
    decide
  have hbase : ("/p/q" : Path).isAbsolute := rfl
  exact ⟨hraw, hbase, (conversion_law hraw hbase).settled "x"⟩

end LoadHook.Options
