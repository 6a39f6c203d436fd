import LoadHook.Proofs.Registry.Unwinding
import LoadHook.Proofs.Script.Snapshot

/-!
# Modules of JSON text

A module of JSON text exports the document of its file, and what is read of its exports is the
document again: the text that is made of them is another one, but a text of the same document. The
exports stand in objects that are newer than the module object, so that marking the module leaves
them as they are; once it is registered the file does not matter any more.
-/
namespace LoadHook

open Script (Value RealmRef Ref Heap Document Key Property Bears)
open Text (Utf16)

variable {realm : RealmRef} {m : Ref} {j : Json} {w : Workspace} {p q : Path} {text : String}

namespace Script.Heap

variable {h h' : Heap} {k : Key} {u : Property}

/-- A module exports a document that stands in objects newer than the module. -/
def Exports (h : Heap) (realm : RealmRef) (m : Ref) (j : Json) : Prop :=
  ∃ low high v, m < low ∧ high ≤ h.objects.size ∧ h.Holds m exportsKey v ∧
    Bears h realm low high v j

/-- New objects change nothing of what a module exports. -/
theorem Exports.extends (hx : h.Exports realm m j) (e : h.Extends h') : h'.Exports realm m j := by
  obtain ⟨low, high, v, hlow, hhigh, hv, hb⟩ := hx
  exact ⟨low, high, v, hlow, Nat.le_trans hhigh e.size, hv.of_old e.object,
    hb.extends (Nat.le_refl low) (Nat.le_refl high) hhigh e⟩

/-- Nor does another property of the module. -/
theorem Exports.putOwn (hx : h.Exports realm m j) (hk : exportsKey ≠ k) :
    (h.putOwn m k u).Exports realm m j := by
  obtain ⟨low, high, v, hlow, hhigh, ⟨writable, e, c, hown⟩, hb⟩ := hx
  refine ⟨low, high, v, hlow, by simpa using hhigh, ⟨writable, e, c, ?_⟩,
    hb.mono (Nat.le_refl low) (Nat.le_refl high) rfl fun r hr _ => ?_⟩
  · rw [own, object_putOwn_self (lt_size_of_own hown), Object.own_put_of_ne hk]
    exact hown
  · exact object_putOwn_of_ne (Nat.ne_of_gt (Nat.lt_of_lt_of_le hlow hr))

end Script.Heap

/-! ## Filling the exports -/

/-- Reading JSON text makes a value that holds the document. -/
theorem Script.BuiltIn.parseJson_of_contents (realm : RealmRef)
    (hj : Json.Contents j text.toList) (hp : j.Portable) (h : Heap) :
    ∃ v h', Script.BuiltIn.parseJson realm (Script.key text) h = .done (.ok v, h') ∧
      h.Extends h' ∧ Bears h' realm h.objects.size h'.objects.size v j := by
  obtain ⟨d, hparse, hd⟩ := Document.parse?_of_contents hj hp
  refine ⟨(Document.toValue realm d h).1, (Document.toValue realm d h).2, ?_,
    Script.toValue_extends realm d h, Script.plants_of_stands hd h⟩
  have hkey : Script.key text = Text.Utf16.ofChars text.toList := rfl
  rw [Script.BuiltIn.parseJson, hkey, hparse]
  exact Script.Eval.update_apply _

/-- The handler of data fills the exports with the document of the file, and changes nothing but
the module object. -/
theorem Handler.json_of_contents {h₀ : Heap} {v : Value}
    (hfile : w.heap.Holds m (Script.key "filename") (.text p.text))
    (hexports : w.heap.own m exportsKey = some (.plain v)) (hmark : w.heap.Marked m false)
    (hold : h₀.Extends w.heap) (hm : h₀.objects.size ≤ m)
    (htext : w.world.tree.readText p = .ok text) (hj : Json.Contents j text.toList)
    (hp : j.Portable) :
    ∃ h', Handler.json realm m w = .done (.ok (), { w with heap := h' }) ∧
      h₀.Extends h' ∧ h'.Exports realm m j ∧ h'.Marked m false := by
  have hin : m < w.heap.objects.size := Heap.lt_size_of_own hexports
  obtain ⟨u, h₁, hparse, hext, hb⟩ :=
    Script.BuiltIn.parseJson_of_contents realm hj hp w.heap
  have hscript : Load.script (Script.BuiltIn.parseJson realm (Script.key text)) w =
      .done (.ok u, { w with heap := h₁ }) := Load.script_of_done hparse
  have hnow : h₁.own m exportsKey = some (.plain v) := hext.own_of_own hexports
  have hset : Load.setExports realm m u { w with heap := h₁ } =
      .done (.ok (), { w with heap := h₁.putOwn m exportsKey (.plain u) }) :=
    Load.script_of_done (Script.Machine.assign_own _ hnow
      (.inr (plain_names "exports" (by decide))))
  refine ⟨h₁.putOwn m exportsKey (.plain u), ?run, (hold.trans hext).putOwn hm, ?exports, ?mark⟩
  case run =>
    rw [Handler.json, Load.bind_of_done (filename_of_holds_path hfile),
      Load.bind_of_done (Load.readFile_of_ok htext),
      Load.bind_of_done (Load.withoutNul_of_notMem hj.nul_notMem), Load.bind_of_done hscript]
    exact hset
  case exports =>
    have hself := Nat.lt_of_lt_of_le hin hext.size
    refine ⟨w.heap.objects.size, h₁.objects.size, u, hin, by simp, ⟨true, true, true, ?_⟩,
      hb.mono (Nat.le_refl _) (Nat.le_refl _) rfl fun r hr _ => ?_⟩
    · rw [Heap.own, Heap.object_putOwn_self hself]
      exact Script.Object.own_put_of_writable (by
        rw [← Heap.own, hnow]
        rfl)
    · exact Heap.object_putOwn_of_ne (Nat.ne_of_gt (Nat.lt_of_lt_of_le hin hr))
  case mark =>
    have hself := Nat.lt_of_lt_of_le hin hext.size
    rw [Heap.Marked, Heap.own, Heap.object_putOwn_self hself,
      Script.Object.own_put_of_ne (by decide)]
    exact hmark.extends hext

/-! ## Loading and reading -/

namespace Host

variable {h g : Host}

/-- A module of JSON text is loaded without running any script, and exports the document of its
file. -/
theorem load_json (hplain : h.workspace.heap.PlainFor realm)
    (hnone : h.registry.modules.get? p = none) (hhandler : h.registry.handlerFor p = Handler.json)
    (htext : h.workspace.world.tree.readText p = .ok text) (hj : Json.Contents j text.toList)
    (hp : j.Portable) :
    ∃ m h₁, load realm p h = (.ok m, h₁) ∧ h₁.registry = h.registry.insert p m ∧
      h.workspace.heap.Extends h₁.workspace.heap ∧ h₁.workspace.heap.Exports realm m j := by
  obtain ⟨m, w₁, hmade, hw⟩ := newModule_furnished p hplain
  have hfresh : h.workspace.heap.objects.size ≤ m := by
    rw [hw.fresh]
    exact Nat.le_succ _
  obtain ⟨h', hrun, hext, hexports, hmark⟩ := Handler.json_of_contents hw.filename hw.exports
    hw.unmarked hw.old hfresh (hw.world ▸ htext) hj hp
  let f := answerWithin (depthLimit - 1)
  have hload : load realm p h = loadNew f realm p h := load_of_not_registered hnone
  refine ⟨m, ⟨h.registry.insert p m, { w₁ with heap := h'.mark m }⟩, ?_, rfl,
    hext.putOwn hfresh, hexports.putOwn (by decide)⟩
  have hmade : h.perform f (newModule realm p) = (.ok m, ⟨h.registry, w₁⟩) :=
    perform_of_done hmade
  have hrun : (⟨h.registry.insert p m, w₁⟩ : Host).perform f
      ((h.registry.insert p m).handlerFor p realm m) =
      (.ok (), ⟨h.registry.insert p m, { w₁ with heap := h' }⟩) := by
    have hsame : (h.registry.insert p m).handlerFor p = Handler.json := hhandler
    rw [hsame]
    exact perform_of_done hrun
  have hmarked : (⟨h.registry.insert p m, { w₁ with heap := h' }⟩ : Host).perform f
      (Load.setProperty realm m "loaded" (.bool true)) =
      (.ok (), ⟨h.registry.insert p m, { w₁ with heap := h'.mark m }⟩) :=
    perform_of_done (setLoaded_of_marked hmark)
  simp only [hload, loadNew, hmade, populate, hrun, hmarked]

/-- What is read of exports that hold a document is the document. -/
theorem exportsText_of_exports (hmute : w.heap.Mute homeRealm)
    (hx : w.heap.Exports homeRealm m j) (hp : j.Portable) (hdepth : j.depth ≤ 100) :
    ∃ text, exportsText m w = .done (.ok (some text), w) ∧ Json.parse text = .ok j := by
  obtain ⟨low, high, v, -, hhigh, hv, hb⟩ := hx
  have hlimit : j.depth < Script.BuiltIn.nestingLimit := Nat.lt_of_le_of_lt hdepth (by decide)
  obtain ⟨d, hshown, text, -, hreads, hprint⟩ : ∃ d, Script.BuiltIn.snapshot
      Script.standardMachine homeRealm ⟨none, none⟩ Script.BuiltIn.nestingLimit [] .undefined [] v
        w.heap = .done (.ok (some d), w.heap) ∧ Script.Document.Prints d j :=
    Script.snapshot_bears _ hmute hb hhigh hp hlimit (by simp) _ _
  refine ⟨String.ofList text, ?_, hreads.parse (Nat.le_trans hdepth (by decide))⟩
  have hdocument : Load.script (Script.BuiltIn.documentOf Script.standardMachine homeRealm v) w =
      .done (.ok (some d), w) := Load.script_of_done hshown
  have htext : (d.print [] []).toString = String.ofList text := by
    rw [hprint, Utf16.toString, (Utf16.ofChars_read text).2]
  rw [exportsText, Load.bind_of_done (exports_of_holds hv), Load.bind_of_done hdocument, ← htext]
  rfl

/-- A module that has been loaded and exports a document is read as the document. -/
theorem loadExports_of_load (hp : absolute h.workspace.world.tree p = .ok q)
    (hload : load homeRealm q h = (.ok m, g)) (hmute : g.workspace.heap.Mute homeRealm)
    (hx : g.workspace.heap.Exports homeRealm m j) (hj : j.Portable) (hdepth : j.depth ≤ 100) :
    h.loadExports p = (.ok j, g) := by
  obtain ⟨text, htext, hparse⟩ := exportsText_of_exports hmute hx hj hdepth
  have hread : g.perform answer (exportsText m) = (.ok (some text), g) := perform_of_done htext
  simp only [loadExports, hp, enter, hload, conclude, hread]
  rw [Except.bind, readExports, hparse]
  rfl

/-- Loading a path gives a document, and so it does again under every spelling of the path, whatever
has become of the file, where the module is still registered and nothing but new objects has come
into the heap. -/
def ReadsBack (h : Host) (p q : Path) (j : Json) : Prop :=
  ∃ h₁, h.loadExports p = (.ok j, h₁) ∧ ∀ (g : Host) (p' q' : Path),
    g.registry.modules.get? q = h₁.registry.modules.get? q →
    h₁.workspace.heap.Extends g.workspace.heap →
    absolute g.workspace.world.tree p' = .ok q' → q.same q' → g.loadExports p' = (.ok j, g)

theorem readsBack_of_plain (hplain : h.workspace.heap.PlainFor homeRealm)
    (hmute : h.workspace.heap.Mute homeRealm) (hp : absolute h.workspace.world.tree p = .ok q)
    (hnone : h.registry.modules.get? q = none) (hhandler : h.registry.handlerFor q = Handler.json)
    (htext : h.workspace.world.tree.readText q = .ok text) (hj : Json.Contents j text.toList)
    (hportable : j.Portable) (hdepth : j.depth ≤ 100) : h.ReadsBack p q j := by
  obtain ⟨m, h₁, hload, hregistry, hext, hexports⟩ :=
    load_json hplain hnone hhandler htext hj hportable
  have hmute := hmute.extends hext
  have hm : h₁.registry.modules.get? q = some m := by
    rw [hregistry]
    exact PathMap.get?_insert_of_same (Path.same_refl q)
  refine ⟨h₁, loadExports_of_load hp hload hmute hexports hportable hdepth, ?_⟩
  intro g p' q' hg hold hp' hsame
  have hfound : g.registry.modules.get? q' = some m :=
    (PathMap.get?_congr hsame).symm.trans (hg.trans hm)
  have hload' : load homeRealm q' g = (.ok m, g) := loadWithin_of_registered hfound depthLimit
  exact loadExports_of_load hp' hload' (hmute.extends hold) (hexports.extends hold) hportable hdepth

/-- What is read of a file of JSON text.

A new host reads a file by the extension of data as the document that its text stands for, and reads
it so again. Any other host does, too, where it has not loaded the file yet and serves it as data,
and where scripts have not changed what the names of a module mean, or how data are written. -/
structure DataLaw (j : Json) (text : String) : Prop where
  fresh : ∀ (w : World) p q, absolute w.tree p = .ok q → Registry.extensionOf q = "json" →
    w.tree.readText q = .ok text → (start w).ReadsBack p q j
  anywhere : ∀ (h : Host) p q, h.workspace.heap.PlainFor homeRealm →
    h.workspace.heap.Mute homeRealm → absolute h.workspace.world.tree p = .ok q →
    h.registry.modules.get? q = none → h.registry.handlerFor q = Handler.json →
    h.workspace.world.tree.readText q = .ok text → h.ReadsBack p q j

/-- Modules of JSON text read back, whatever the text of the document is. Doubles have to keep its
numbers, and the lengths of its arrays, as they do for every array that fits in a memory. -/
theorem data_law (hj : Json.Contents j text.toList) (hportable : j.Portable)
    (hdepth : j.depth ≤ 100) : DataLaw j text where
  fresh w p q hp hextension htext := by
    have hheap : (start w).workspace.heap = Script.ground := Script.heap_start w
    have hhandler : (start w).registry.handlerFor q = Handler.json := by
      rw [Registry.handlerFor, Registry.handler?, hextension]
      rfl
    exact readsBack_of_plain (plainFor_start w) (hheap ▸ Script.mute_ground) hp rfl hhandler htext
      hj hportable hdepth
  anywhere h p q hplain hmute hp hnone hhandler htext :=
    readsBack_of_plain hplain hmute hp hnone hhandler htext hj hportable hdepth

/-- A text with white space, an escape, an exponent, and a member that is replaced. -/
def variedText : String := "\x7b \"a\" : 1.5, \"a\": [1e1,\"\\u0041\"] \x7d\n"

/-- The document that the text stands for. -/
def varied : Json := .obj [("a", .arr [.int 10, .str "A"])]

theorem contents_varied : Json.Contents varied variedText.toList := by
  have hspace : Json.Blank [' '] := by simp [Json.Blank]
  have hone : Json.Digits ['1'] := ⟨by simp, by simp⟩
  let items : List (Json × Json.Entry) :=
    [(.int 10, .bare ['1', 'e', '1']),
      (.str "A", .bare ['"', '\\', 'u', '0', '0', '4', '1', '"'])]
  have hten : Json.Amount 10 ['1', 'e', '1'] :=
    .mk ['1'] [] ['e', '1'] 1 hone (by simp) .none (.up 'e' [] ['1'] (.inl rfl) (.inl rfl) hone) (by
      have hdigit : Nat.ofDigitChars 10 ['1'] 0 = 1 := by rfl
      norm_num [hdigit])
  have hquoted : Json.Quotes (Utf16.ofString "A") ['\\', 'u', '0', '0', '4', '1'] :=
    .unit 65 ['0', '0', '4', '1'] (by rfl) .nil
  have hitems : Json.Tells (.arr (items.map Prod.fst))
      ('[' :: (Json.Entry.between [] (items.map Prod.snd) ++ [']'])) := by
    refine .arr [] items Json.blank_nil ?_ ?_
    · simp only [items, List.forall_mem_cons]
      exact ⟨Json.Entry.fits_bare _, Json.Entry.fits_bare _, nofun⟩
    · simp only [items, List.forall_mem_cons]
      exact ⟨.number hten, .str hquoted, nofun⟩
  let members : List ((String × Json) × Json.Entry) :=
    [(("a", .null), ⟨[' ', '"', 'a', '"', ' ', ':'], [' '], ['1', '.', '5'], []⟩),
      (("a", .arr (items.map Prod.fst)), ⟨[' ', '"', 'a', '"', ':'], [' '],
        '[' :: (Json.Entry.between [] (items.map Prod.snd) ++ [']']), [' ']⟩)]
  have hmembers : Json.Tells (.ofMembers (members.map Prod.fst))
      ('\x7b' :: (Json.Entry.between [] (members.map Prod.snd) ++ ['\x7d'])) := by
    refine .obj [] members Json.blank_nil ?_ ?_ ?_
    · simp only [members, List.forall_mem_cons]
      exact ⟨⟨.member hspace (.plain 'a' (by decide) .nil) hspace, hspace, Json.blank_nil⟩,
        ⟨.member hspace (.plain 'a' (by decide) .nil) Json.blank_nil, hspace, hspace⟩, nofun⟩
    · simp only [members, List.forall_mem_cons]
      have hfraction : Json.Fraction ['.', '5'] := .some ['5'] ⟨by simp, by simp⟩
      exact ⟨.number (.mk ['1'] ['.', '5'] [] hone (by simp) hfraction .none), hitems.wellformed,
        nofun⟩
    · intro m hm
      rcases Json.last_cons_iff.mp hm with hm | ⟨rfl, hno⟩
      · obtain rfl := List.mem_singleton.mp hm.mem
        exact hitems
      · exact absurd rfl (hno (List.head members.tail (by simp [members])) List.mem_cons_self)
  exact .mk [] _ ['\n'] Json.blank_nil hmembers (by simp [Json.Blank])

theorem portable_varied : varied.Portable := by
  refine .obj _ fun m hm => ?_
  obtain rfl := List.mem_singleton.mp hm
  refine .arr _ (by decide) fun i hi => ?_
  rcases List.mem_pair.mp hi with rfl | rfl
  · exact .int 10 (by decide)
  · exact .str "A"

/-- A world with the text in a file. -/
def variedWorld : World :=
  ⟨⟨[(["d.json".toList], .file (Text.encode variedText) ⟨0⟩ 0)], []⟩, [], ⟨0⟩, 1, #[]⟩

/-- The document is read, and is read again when the file has gone. -/
theorem data_law_varied : ∃ h, (start variedWorld).loadExports "/d.json" = (.ok varied, h) ∧
    (h.withWorld ⟨⟨[], []⟩, [], ⟨0⟩, 1, #[]⟩).loadExports "//d.json/." =
      (.ok varied, h.withWorld ⟨⟨[], []⟩, [], ⟨0⟩, 1, #[]⟩) := by
  have hlaw : DataLaw varied variedText := data_law contents_varied portable_varied (by decide)
  obtain ⟨h, hfirst, hagain⟩ : (start variedWorld).ReadsBack "/d.json" "/d.json" varied :=
    hlaw.fresh variedWorld "/d.json" "/d.json" rfl rfl rfl
  exact ⟨h, hfirst, hagain _ "//d.json/." "/d.json" rfl (.refl _) rfl (Path.same_refl _)⟩

end Host

end LoadHook
