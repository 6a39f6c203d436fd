import LoadHook.Proofs.Module.Globals
import LoadHook.Proofs.Module.Making

/-!
# What a module finds as its text starts

Setting up a realm for a module asks for nothing and changes nothing of what there was, whether it
succeeds or not. It succeeds just in case the keys that the caller shows can be assigned to, the
module has a `require` that can be called, and its file is a text. Then the new global object has
the names of the module, whatever the caller shows under them, and everything else that the caller
shows. The directory bound there is the one from which the `require` of the module takes specifiers,
which was computed elsewhere.
-/
namespace LoadHook

open Script (Value RealmRef Ref Heap Eval Key Property Realm)

namespace Sandbox

open Script (key fixedNames protoKey)
open Script.Heap (Raised Locks Assignable)

variable {w w' : Workspace} {caller realm : RealmRef} {h : Heap} {r : Realm} {k : Key} {v : Value}
  {module : Ref} {require exports filename : Value} {output file p : Path}

/-! ## Copying what cannot be copied -/

theorem copyKey_failed (hr : Raised w.heap r h) (hl : h.Locks r.global)
    (hf : w.heap.Frank caller) (hk : w.heap.shows caller k = some v) (ha : ¬ Assignable k) :
    ∃ e h', copyKey caller w.heap.realms.size k { w with heap := h } =
      .done (.error e, { w with heap := h' }) ∧ Raised w.heap r h' := by
  cases ht : Text.Utf16.toString? k with
  | error place => exact ⟨_, h, by rw [copyKey, ht]; rfl, hr⟩
  | ok s =>
    have htext : (Text.Utf16.toString? k).isOk := by rw [ht]; rfl
    have hfixed : k ∈ fixedNames := Classical.not_not.mp fun hfree => ha ⟨htext, hfree⟩
    obtain ⟨u, e, c, hown⟩ := hl k hfixed
    obtain ⟨thrown, o, hassign⟩ : ∃ thrown o, Script.standardMachine.assign w.heap.realms.size true
        (.obj r.global) k v h = .done (.error (.thrown thrown), (h.addObject o).2) :=
      Script.standardMachine.assign_readOnly hown
    refine ⟨.thrown thrown, _, ?_, hr.addObject o⟩
    rw [copyKey_eq hr hf hk htext]
    simp only [Load.script, hassign, Load.ofRun]
    rfl

/-- Copying fails at a key that cannot be assigned to, nothing being changed by then but the new
global object. -/
theorem copyKeys_failed (hr : Raised w.heap r h) (hl : h.Locks r.global)
    (hf : w.heap.Frank caller) {ks : List Key} (hks : ∀ k ∈ ks, (w.heap.shows caller k).isSome)
    (hproto : protoKey ∉ ks) (hnot : ¬ ∀ k ∈ ks, Assignable k) :
    ∃ e h', copyKeys caller w.heap.realms.size ks { w with heap := h } =
      .done (.error e, { w with heap := h' }) ∧ Raised w.heap r h' := by
  induction ks generalizing h with
  | nil => exact absurd nofun hnot
  | cons k ks ih =>
    obtain ⟨v, hk⟩ := Option.isSome_iff_exists.mp (hks k List.mem_cons_self)
    obtain ⟨hne, hproto⟩ := not_or.mp (mt List.mem_cons.mpr hproto)
    by_cases ha : Assignable k
    · obtain ⟨e, h', hfailed, hr'⟩ := ih (hr.assignAll [(k, v)])
        (hl.putOwn (fun _ => ha.free) _) (fun l hl => hks l (List.mem_cons_of_mem k hl)) hproto
        fun hall => hnot (List.forall_mem_cons.mpr ⟨ha, hall⟩)
      have hcopied := copyKey_done hr hf hk ha (Ne.symm hne)
      exact ⟨e, h', by rw [copyKeys, Load.bind_of_done hcopied, hfailed], hr'⟩
    · obtain ⟨e, h', hfailed, hr'⟩ := copyKey_failed hr hl hf hk ha
      exact ⟨e, h', by rw [copyKeys, Load.bind_of_failed hfailed], hr'⟩

/-! ## Binding what cannot be bound -/

namespace Legible

variable (hm : Legible h module require exports filename) (realm : RealmRef) (w : Workspace)
include hm

theorem requireOf_failed (hc : ¬ h.callable require) :
    ∃ e, requireOf realm module { w with heap := h } = .done (.error e, { w with heap := h }) := by
  rw [hm.requireOf_eq, if_neg hc]
  exact ⟨_, rfl⟩

theorem dirname_failed (ht : ∀ text, Script.textOf h filename ≠ .ok text) :
    ∃ e, Load.dirname realm module { w with heap := h } =
      .done (.error e, { w with heap := h }) := by
  rw [hm.dirname_eq]
  cases htext : Script.textOf h filename with
  | ok text => exact absurd htext (ht text)
  | error text => exact ⟨_, rfl⟩

end Legible

/-- Binding the names of a module comes to an end, with a heap in which nothing was changed but the
new global object. It fails if the `require` of the module cannot be called, or its file is no
text. -/
theorem bindModule_failed (caller : RealmRef) (output : Path) (hr : Raised w.heap r h)
    (hm : Legible w.heap module require exports filename)
    (hnot : ¬ (h.callable require ∧ ∃ text, Script.textOf w.heap filename = .ok text)) :
    ∃ e h', bindModule caller w.heap.realms.size output module { w with heap := h } =
      .done (.error e, { w with heap := h' }) ∧ Raised w.heap r h' := by
  by_cases hc : h.callable require
  · have ht (text : String) : Script.textOf w.heap filename ≠ .ok text :=
      fun ht => hnot ⟨hc, text, ht⟩
    have hr₃ := hr.assignAll [(key "__filename", .text output.text), (key "exports", exports),
      (key "require", require)]
    obtain ⟨e, hfailed⟩ := (hm.of_raised hr₃).dirname_failed caller w
      fun text hok => ht text (textOf_of_ok hok)
    refine ⟨e, _, ?_, hr₃⟩
    rw [bindModule_begun hr hm hc]
    exact Load.bind_of_failed hfailed
  · obtain ⟨e, hfailed⟩ := (hm.of_raised hr).requireOf_failed caller w hc
    exact ⟨e, h, by rw [bindModule, Load.bind_of_failed hfailed], hr⟩

/-! ## Setting up a realm -/

/-- Nothing was changed of what there was: what is new stands beside it. -/
structure Untouched (w w' : Workspace) : Prop where
  world : w'.world = w.world
  hooks : w'.hooks = w.hooks
  old : ∀ s < w.heap.objects.size, w'.heap.object s = w.heap.object s
  realms : ∀ n < w.heap.realms.size, w'.heap.realm n = w.heap.realm n

theorem untouched_of_raised (hr : Raised w.heap r h) : Untouched w { w with heap := h } :=
  ⟨rfl, rfl, hr.old, fun _ hn => hr.realm_of_lt hn⟩

/-- The text of a module can start: the keys that the caller shows can be assigned to, the `require`
of the module can be called, and its file is a text. -/
structure Startable (caller : RealmRef) (w : Workspace) (require filename : Value) : Prop where
  keys : ∀ k ∈ w.heap.shownKeys caller, Assignable k
  callable : w.heap.addRealm.2.callable require
  file : ∃ text, Script.textOf w.heap filename = .ok text

/-- The value under a key of the global object of a realm. -/
def globalValue (w : Workspace) (realm : RealmRef) (k : Key) : Option Value :=
  (w.heap.globalOwn realm k).bind Property.value?

/-- The global object of a realm is new, and has the names of a module, and everything else that the
caller shows. -/
structure Bound (caller : RealmRef) (w : Workspace) (module : Ref) (require exports : Value)
    (output file : Path) (realm : RealmRef) (w' : Workspace) : Prop where
  fresh : w.heap.objects.size ≤ (w'.heap.realm realm).global
  require : globalValue w' realm (key "require") = some require
  exports : globalValue w' realm (key "exports") = some exports
  module : globalValue w' realm (key "module") = some (.obj module)
  global : globalValue w' realm (key "global") = some (.obj (w'.heap.realm realm).global)
  filename : globalValue w' realm (key "__filename") = some (.text output.text)
  dirname : globalValue w' realm (key "__dirname") = some (.text (file.parent.getD "").text)
  shown : ∀ k ∉ boundNames.map key, ∀ v, w.heap.shows caller k = some v →
    globalValue w' realm k = some v

namespace Started

variable (hs : Started caller w module require exports output file realm w')
include hs

theorem globalValue_of_lookup
    (hk : (moduleBindings (w'.heap.realm realm).global module require exports output file).lookup
      k = some v) : globalValue w' realm k = some v := by
  rw [globalValue, hs.globals, hk, Property.received, Option.bind_some, Property.value?_assigned]

/-- A module that has been started has its names, and what its caller shows. -/
theorem bound : Bound caller w module require exports output file realm w' where
  fresh := hs.fresh
  require := hs.globalValue_of_lookup rfl
  exports := hs.globalValue_of_lookup rfl
  module := hs.globalValue_of_lookup rfl
  global := hs.globalValue_of_lookup rfl
  filename := hs.globalValue_of_lookup rfl
  dirname := hs.globalValue_of_lookup rfl
  shown k hk v hv := by
    rw [globalValue, hs.inherits hk, hv, Property.received, Option.bind_some,
      Property.value?_assigned]

end Started

theorem Started.untouched (hs : Started caller w module require exports output file realm w') :
    Untouched w w' := ⟨hs.world, hs.hooks, hs.old, hs.realms⟩

theorem prepare_failed (hf : w.heap.Frank caller) (hproto : protoKey ∉ w.heap.shownKeys caller)
    (hm : Legible w.heap module require exports filename) (output : Path)
    (hnot : ¬ Startable caller w require filename) :
    ∃ e w', prepare caller output module w = .done (.error e, w') ∧ Untouched w w' := by
  obtain ⟨hrealm, r, hfinished⟩ := w.heap.finished_addRealm
  have hr := hfinished.toRaised
  have hshown : ∀ k ∈ w.heap.shownKeys caller, (w.heap.shows caller k).isSome :=
    fun k hk => hf.mem_shownKeys.mp hk
  by_cases hkeys : ∀ k ∈ w.heap.shownKeys caller, Assignable k
  · have hcopied := copyKeys_done hr hf hshown fun k hk => ⟨hkeys k hk, fun e => hproto (e ▸ hk)⟩
    obtain ⟨e, h', hfailed, hr'⟩ := bindModule_failed caller output
      (hr.assignAll (shownValues w.heap caller (w.heap.shownKeys caller))) hm
      fun ⟨hc, hfile⟩ => hnot ⟨hkeys, by simpa using hc, hfile⟩
    refine ⟨e, _, ?_, untouched_of_raised hr'⟩
    rw [prepare, Load.bind_of_done (Load.script_update _), hrealm,
      Load.bind_of_done (shownKeys_done hr hf), Load.bind_of_done hcopied]
    exact Load.bind_of_failed hfailed
  · obtain ⟨e, h', hfailed, hr'⟩ :=
      copyKeys_failed hr hfinished.locks hf hshown hproto hkeys
    refine ⟨e, _, ?_, untouched_of_raised hr'⟩
    rw [prepare, Load.bind_of_done (Load.script_update _), hrealm,
      Load.bind_of_done (shownKeys_done hr hf)]
    exact Load.bind_of_failed hfailed

/-! ## The directory of a module -/

/-- A module object as the host makes it for a path, with a `require` for the directory of the
path. -/
structure Made (h : Heap) (p : Path) (module f : Ref) : Prop where
  filename : h.Holds module (key "filename") (.text p.text)
  require : h.Holds module (key "require") (.obj f)
  kind : ∃ realm, (h.object f).kind = .native (.require (p.parent.getD "")) realm

theorem made_of_furnished (hw : LoadHook.Furnished realm p w module w') :
    Made w'.heap p module w.heap.objects.size where
  filename := hw.filename
  require := ⟨true, true, true, (hw.own _).trans rfl⟩
  kind := by
    refine ⟨realm, ?_⟩
    rw [hw.heap]
    exact congrArg Script.Object.kind Script.Heap.object_furnished_require

namespace Made

variable {f : Ref} (hm : Made h p module f)
include hm

/-- What is read of a module object that the host has made. -/
theorem read (hl : Legible h module require exports filename) :
    require = .obj f ∧ Script.textOf h filename = .ok p.text := by
  refine ⟨hl.require.unique hm.require.reads, ?_⟩
  rw [hl.filename.unique hm.filename.reads]
  simp only [Script.textOf, Value.text, Script.key, Text.Utf16.toString?_ofString]

/-- Its `require` takes specifiers from the directory of the path. -/
theorem call_require (realm : RealmRef) (this : Value) (specifier : String) :
    Script.standardMachine.call realm (.obj f) this [.text specifier] h =
      Eval.ask (.require specifier (p.parent.getD "") realm) h := by
  obtain ⟨own, hkind⟩ := hm.kind
  exact Script.call_require hkind this specifier

/-- The function is in the heap, since the default object cannot be called. -/
theorem inside : f < h.objects.size := by
  obtain ⟨own, hkind⟩ := hm.kind
  refine Nat.lt_of_not_le fun hle => ?_
  rw [Heap.object, Array.getElem?_eq_none hle] at hkind
  cases hkind

/-- With its exports it holds all that the host reads from it. -/
theorem furnished (he : h.Holds module exportsKey exports) :
    Furnished h module (.obj f) exports p where
  require_held := hm.require
  callable := by
    obtain ⟨own, hkind⟩ := hm.kind
    rw [Heap.callable, Script.Object.callable, hkind]
  exports_held := he
  filename_held := ⟨_, p.text, hm.filename, Text.Utf16.toString?_ofString p.text,
    p.ofString_text.symm⟩

omit hm in
theorem of_untouched (hm : Made w.heap p module f) (hu : Untouched w w') :
    Made w'.heap p module f where
  filename := hm.filename.of_old hu.old
  require := hm.require.of_old hu.old
  kind := by
    rw [hu.old f hm.inside]
    exact hm.kind

end Made

/-- How setting up a realm ends: nothing that there was is changed, whether the module can start or
not; if it can, its text runs with its names bound in a new global object, and with everything else
that the caller shows. The directory that is bound for a module that the host has made is the one
from which its `require` takes specifiers. -/
structure SetUp (caller : RealmRef) (w : Workspace) (module : Ref)
    (require exports filename : Value) (output : Path) (result : Except Failure RealmRef)
    (w' : Workspace) : Prop where
  done : prepare caller output module w = .done (result, w')
  untouched : Untouched w w'
  succeeds : result.isOk ↔ Startable caller w require filename
  bound : ∀ realm, result = .ok realm → ∃ text, Script.textOf w.heap filename = .ok text ∧
    Bound caller w module require exports output (Path.ofString text) realm w'
  run : ∀ text, w.world.tree.readText output = .ok text → Sandbox.run caller output module w =
    match result with
    | .ok realm => (do
        let text ← Load.withoutNul text
        Load.script (Script.runText realm false text) : Load Value) w'
    | .error e => .done (.error e, w')
  directory : ∀ p f, Made w.heap p module f →
    (∀ realm, result = .ok realm → globalValue w' realm (key "require") = some (.obj f) ∧
      globalValue w' realm (key "__dirname") = some (.text (p.parent.getD "").text)) ∧
    ∀ realm this specifier,
      Script.standardMachine.call realm (.obj f) this [.text specifier] w'.heap =
        Eval.ask (.require specifier (p.parent.getD "") realm) w'.heap

/-- Running a file is to set up a realm and to go on with its text. -/
theorem run_of_prepare {result : Except Failure RealmRef} {text : String}
    (hp : prepare caller output module w = .done (result, w'))
    (ht : w.world.tree.readText output = .ok text) : Sandbox.run caller output module w =
    match result with
    | .ok realm => (do
        let text ← Load.withoutNul text
        Load.script (Script.runText realm false text) : Load Value) w'
    | .error e => .done (.error e, w') := by
  rw [run, Load.bind_of_done (Load.readFile_of_ok ht)]
  cases result with
  | ok realm => exact Load.bind_of_done hp
  | error e => exact Load.bind_of_failed hp

/-- What a module finds as its text starts, for every caller that shows data, but nothing under the
one name by which an object reaches what stands above it, for every module object that is read
without running a script, and for every file that is run. Every module object that the host makes,
where the names of a module mean nothing special, has a `require` for the directory of its path. -/
theorem binding_law (hf : w.heap.Frank caller) (hproto : w.heap.shows caller protoKey = none)
    (hm : Legible w.heap module require exports filename) (output : Path) :
    (∃ result w', SetUp caller w module require exports filename output result w') ∧
    ∀ realm p w₀, w₀.heap.PlainFor realm → ∃ m w₁ f,
      Host.newModule realm p w₀ = .done (.ok m, w₁) ∧ Made w₁.heap p m f := by
  refine ⟨?setUp, fun realm p w₀ hplain => ?made⟩
  case made =>
    obtain ⟨m, w₁, hnew, hw⟩ := newModule_furnished p hplain
    exact ⟨m, w₁, _, hnew, made_of_furnished hw⟩
  have hfree : protoKey ∉ w.heap.shownKeys caller := by
    rw [hf.mem_shownKeys, hproto]
    exact Bool.false_ne_true
  by_cases hstart : Startable caller w require filename
  · obtain ⟨text, htext⟩ := hstart.file
    obtain ⟨realm, w', hp, hs⟩ := prepare_of_legible hf
      (fun k hk => ⟨hstart.keys k hk, fun e => hfree (e ▸ hk)⟩) hm hstart.callable htext output
    refine ⟨.ok realm, w', hp, hs.untouched, iff_of_true rfl hstart, ?bound,
      fun text ht => run_of_prepare hp ht, fun p f hmade => ⟨?directory, ?call⟩⟩
    case bound =>
      rintro _ ⟨⟩
      exact ⟨text, htext, hs.bound⟩
    case directory =>
      rintro _ ⟨⟩
      obtain ⟨hrequire, hfile⟩ := hmade.read hm
      obtain rfl := Except.ok.inj (htext.symm.trans hfile)
      have hdirname := hs.bound.dirname
      rw [Path.ofString_text] at hdirname
      exact ⟨hrequire ▸ hs.bound.require, hdirname⟩
    case call => exact (hmade.of_untouched hs.untouched).call_require
  · obtain ⟨e, w', hp, hu⟩ := prepare_failed hf hfree hm output hstart
    exact ⟨.error e, w', hp, hu, iff_of_false nofun hstart, nofun,
      fun text ht => run_of_prepare hp ht,
      fun p f hmade => ⟨nofun, (hmade.of_untouched hu).call_require⟩⟩

/-- A heap with a caller that shows names of a module, and with a module object that has its exports
from the object above it. -/
def desk : Heap :=
  { Heap.empty with
    objects := #[⟨.tagged "global", none, true, [(key "require", .plain .null),
        (key "__dirname", .plain (.bool false)), (key "leaked", .plain (.bool true))]⟩,
      ⟨.native (.require "/lib") 0, none, true, []⟩,
      ⟨.plain, none, true, [(exportsKey, .plain (.bool true))]⟩,
      ⟨.plain, some 2, true, [(key "filename", .plain (.text "/lib/a.js")),
        (key "require", .plain (.obj 1))]⟩]
    realms := #[{ (default : Realm) with global := 0 }] }

theorem legible_desk :
    Legible desk 3 (.obj 1) (.bool true) (.text "/lib/a.js") where
  require := ⟨0, .own rfl rfl⟩
  exports := ⟨1, .above (by decide) rfl rfl (.own rfl rfl)⟩
  filename := ⟨0, .own rfl rfl⟩

/-- A module that is run from another file finds its own names, and what the caller shows under
another one; its directory is the one of its `require`. -/
theorem binding_law_desk : desk.Frank 0 ∧ desk.shows 0 protoKey = none ∧
    Legible desk 3 (.obj 1) (.bool true) (.text "/lib/a.js") ∧
    ∃ realm w', prepare 0 "/out/1.js" 3 { leakyWorkspace with heap := desk } =
        .done (.ok realm, w') ∧
      globalValue w' realm (key "require") = some (.obj 1) ∧
      globalValue w' realm (key "exports") = some (.bool true) ∧
      globalValue w' realm (key "__filename") = some (.text "/out/1.js") ∧
      globalValue w' realm (key "__dirname") = some (.text "/lib") ∧
      globalValue w' realm (key "leaked") = some (.bool true) := by
  have hf : desk.Frank 0 := by decide +kernel
  have hshown : desk.shownKeys 0 = [key "require", key "__dirname", key "leaked"] := by
    decide +kernel
  have hkeys : ∀ k ∈ desk.shownKeys 0, Assignable k := by
    rw [hshown]
    simp only [List.forall_mem_cons]
    exact ⟨⟨rfl, by decide⟩, ⟨rfl, by decide⟩, ⟨rfl, by decide⟩, nofun⟩
  have hmade : Made desk "/lib/a.js" 3 1 :=
    ⟨⟨true, true, true, rfl⟩, ⟨true, true, true, rfl⟩, 0, rfl⟩
  obtain ⟨⟨result, w', hs⟩, -⟩ := binding_law (w := { leakyWorkspace with heap := desk })
    hf rfl legible_desk "/out/1.js"
  have hok : result.isOk := hs.succeeds.mpr
    ⟨hkeys, callable_addRealm rfl, _, (hmade.read legible_desk).2⟩
  cases result with
  | error e => cases hok
  | ok realm =>
    obtain ⟨text, -, hbound⟩ := hs.bound realm rfl
    obtain ⟨hrequire, hdirname⟩ := (hs.directory "/lib/a.js" 1 hmade).1 realm rfl
    exact ⟨hf, rfl, legible_desk, realm, w', hs.done, hrequire, hbound.exports, hbound.filename,
      hdirname, hbound.shown (key "leaked") (by decide) _ rfl⟩

end Sandbox
end LoadHook
