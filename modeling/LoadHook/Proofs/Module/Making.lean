import LoadHook.Module.Steps
import LoadHook.Proofs.Module.Object

/-!
# New module objects in full

Where the names of a module mean nothing special, making a module object adds three objects to the
heap: its `require`, the module object itself, and an empty object for its exports. `Furnished`
says what is in them.

A module that is given as steps asks for others as a script does, through the function that its
object holds under `require`. Where that is the function that the host has put there, asking is one
requirement, taken from the directory that the function was made for.
-/
namespace LoadHook

open Script (Value RealmRef Ref Heap Eval Object)

variable {w w' : Workspace} {realm : RealmRef} {m : Ref} {p : Path} {h h' : Heap}

/-- What the names of a module mean is not changed by new objects. -/
theorem Script.Heap.PlainFor.extends (hp : h.PlainFor realm) (e : h.Extends h') :
    h'.PlainFor realm where
  inside := by
    rw [e.realm]
    exact Nat.lt_of_lt_of_le hp.inside e.size
  top := by
    rw [e.realm, e.object _ hp.inside]
    exact hp.top
  free name hn q hq := by
    rw [e.realm, e.own hp.inside] at hq
    exact hp.free name hn q hq

/-! ## The objects that are made -/

namespace Script.Heap

/-- The `require` of a module of a path. -/
def requireOf (h : Heap) (realm : RealmRef) (p : Path) : Object :=
  ⟨.native (.require (p.parent.getD "")) realm, some (h.realm realm).functionProto, true,
    [(Script.lengthKey, ⟨.data (.nat 1) false, false, true⟩),
     (Script.key "name", ⟨.data (.text "require") false, false, true⟩)]⟩

/-- A plain object without properties. -/
def blank (h : Heap) (realm : RealmRef) : Object :=
  ⟨.plain, some (h.realm realm).objectProto, true, []⟩

/-- The object of a new module of a path, with the objects of its exports and its `require`. -/
def moduleOf (h : Heap) (realm : RealmRef) (p : Path) (exports require : Ref) : Object :=
  ⟨.plain, some (h.realm realm).objectProto, true,
    [(Script.key "id", .plain (.text p.text)), (Script.key "filename", .plain (.text p.text)),
     (loadedKey, .plain (.bool false)), (exportsKey, .plain (.obj exports)),
     (Script.key "require", .plain (.obj require))]⟩

/-- A heap with the `require` and the bare object of a new module. -/
def begun (h : Heap) (realm : RealmRef) (p : Path) : Heap :=
  ((h.addObject (h.requireOf realm p)).2.addObject (h.blank realm)).2

/-- The bare object of a new module with what it says of itself. -/
def named (h : Heap) (realm : RealmRef) (p : Path) : Heap :=
  (((h.begun realm p).putOwn (h.objects.size + 1) (Script.key "id") (.plain (.text p.text))).putOwn
    (h.objects.size + 1) (Script.key "filename") (.plain (.text p.text))).putOwn
    (h.objects.size + 1) loadedKey (.plain (.bool false))

/-- A heap with all objects of a new module. -/
def furnished (h : Heap) (realm : RealmRef) (p : Path) : Heap :=
  (((h.named realm p).addObject (h.blank realm)).2.putOwn (h.objects.size + 1) exportsKey
    (.plain (.obj (h.objects.size + 2)))).putOwn (h.objects.size + 1) (Script.key "require")
    (.plain (.obj h.objects.size))

@[simp] theorem size_begun : (h.begun realm p).objects.size = h.objects.size + 2 := by
  simp [begun]

@[simp] theorem size_named : (h.named realm p).objects.size = h.objects.size + 2 := by
  simp [named]

@[simp] theorem size_furnished : (h.furnished realm p).objects.size = h.objects.size + 3 := by
  simp [furnished]

/-- An object that is not the module object is as it was before the module object was filled. -/
theorem object_named_of_ne {r : Ref} (hr : r ≠ h.objects.size + 1) :
    (h.named realm p).object r = (h.begun realm p).object r := by
  rw [named, object_putOwn_of_ne hr, object_putOwn_of_ne hr, object_putOwn_of_ne hr]

theorem object_furnished_of_ne {r : Ref} (hr : r ≠ h.objects.size + 1) :
    (h.furnished realm p).object r = ((h.named realm p).addObject (h.blank realm)).2.object r := by
  rw [furnished, object_putOwn_of_ne hr, object_putOwn_of_ne hr]

theorem object_furnished_require :
    (h.furnished realm p).object h.objects.size = h.requireOf realm p := by
  have hne : h.objects.size ≠ h.objects.size + 1 := by omega
  rw [object_furnished_of_ne hne, object_addObject_of_lt (by simp), object_named_of_ne hne, begun,
    object_addObject_of_lt (by simp)]
  exact object_addObject_self

theorem object_furnished_exports :
    (h.furnished realm p).object (h.objects.size + 2) = h.blank realm := by
  have hne : h.objects.size + 2 ≠ h.objects.size + 1 := by omega
  have hself := object_addObject_self (h := h.named realm p) (o := h.blank realm)
  rw [size_named] at hself
  rw [object_furnished_of_ne hne, hself]

end Script.Heap

/-- What making a module object for a path comes to in full: three new objects, and nothing else. -/
structure Furnished (realm : RealmRef) (p : Path) (w : Workspace) (m : Ref) (w' : Workspace) :
    Prop where
  fresh : m = w.heap.objects.size + 1
  heap : w' = { w with heap := w.heap.furnished realm p }
  old : w.heap.Extends w'.heap
  object : w'.heap.object m =
    w.heap.moduleOf realm p (w.heap.objects.size + 2) w.heap.objects.size

namespace Furnished

variable (hw : Furnished realm p w m w')
include hw

theorem world : w'.world = w.world := by rw [hw.heap]

theorem hooks : w'.hooks = w.hooks := by rw [hw.heap]

theorem at? (number : Nat) : Hook.at? w' number = Hook.at? w number := by
  rw [Hook.at?, hw.hooks, Hook.at?]

theorem own (k : Script.Key) : w'.heap.own m k = Script.findKey k (w.heap.moduleOf realm p
    (w.heap.objects.size + 2) w.heap.objects.size).props := by
  rw [Script.Heap.own, hw.object]
  rfl

theorem filename : w'.heap.Holds m (Script.key "filename") (.text p.text) :=
  ⟨true, true, true, (hw.own _).trans rfl⟩

theorem unmarked : w'.heap.Marked m false := (hw.own loadedKey).trans rfl

theorem exports : w'.heap.own m exportsKey = some (.plain (.obj (m + 1))) := by
  rw [hw.own, hw.fresh]
  rfl

theorem empty : w'.heap.object (m + 1) = w.heap.blank realm := by
  rw [hw.heap, hw.fresh]
  exact Script.Heap.object_furnished_exports

end Furnished

/-- For code of a realm in which the names of a module mean nothing special a module object is
made without running any script, and all that is made is known. -/
theorem newModule_furnished (p : Path) (hp : w.heap.PlainFor realm) :
    ∃ m w', Host.newModule realm p w = .done (.ok m, w') ∧ Furnished realm p w m w' := by
  have hr : ((w.heap.addNative realm (w.heap.realm realm).functionProto
      (.require (p.parent.getD "")) "require" 1).2.addPlain
      (some (w.heap.realm realm).objectProto)).1 = w.heap.objects.size + 1 := by
    simp [Heap.addNative, Heap.addPlain]
  have b := newborn_addPlain w.heap realm p
  rw [hr] at b
  have b₁ := b.putOwn (Script.key "id") (.plain (.text p.text))
  have b₂ := b₁.putOwn (Script.key "filename") (.plain (.text p.text))
  have b₃ : Newborn _ _ _ _ (w.heap.named realm p) :=
    b₂.putOwn loadedKey (.plain (.bool false))
  have b₄ := b₃.addObject (o := w.heap.blank realm)
  have b₅ := b₄.putOwn exportsKey (.plain (.obj (w.heap.objects.size + 2)))
  have b₆ : Newborn _ _ _ _ (w.heap.furnished realm p) :=
    b₅.putOwn (Script.key "require") (.plain (.obj w.heap.objects.size))
  have hexports : Load.script (Script.newObject realm []) { w with heap := w.heap.named realm p } =
      .done (.ok (.obj (w.heap.objects.size + 2)),
        { w with heap := ((w.heap.named realm p).addObject (w.heap.blank realm)).2 }) := by
    have hsize : (w.heap.named realm p).objects.size = w.heap.objects.size + 2 :=
      Script.Heap.size_named
    rw [← hsize]
    exact Load.script_update _
  have hrun : (do
      Load.setProperty realm (w.heap.objects.size + 1) "id" (.text p.text)
      Load.setProperty realm (w.heap.objects.size + 1) "filename" (.text p.text)
      Load.setProperty realm (w.heap.objects.size + 1) "loaded" (.bool false)
      Load.setProperty realm (w.heap.objects.size + 1) "exports"
        (← Load.script (Script.newObject realm []))
      Load.setProperty realm (w.heap.objects.size + 1) "require" (.obj w.heap.objects.size)
      return w.heap.objects.size + 1 : Load Ref) { w with heap := w.heap.begun realm p } =
      .done (.ok (w.heap.objects.size + 1), { w with heap := w.heap.furnished realm p }) := by
    refine (Load.bind_of_done (b.setProperty hp w (by decide) rfl _)).trans ?_
    refine (Load.bind_of_done (b₁.setProperty hp w (by decide) rfl _)).trans ?_
    refine (Load.bind_of_done (b₂.setProperty hp w (by decide) rfl _)).trans ?_
    refine (Load.bind_of_done hexports).trans ?_
    refine (Load.bind_of_done (b₄.setProperty hp w (by decide) rfl _)).trans ?_
    exact (Load.bind_of_done (b₅.setProperty hp w (by decide) rfl _)).trans rfl
  refine ⟨_, _, ?run, rfl, rfl, b₆.old, ?object⟩
  case object =>
    rw [b₆.object]
    rfl
  case run =>
    rw [Host.newModule, Load.bind_of_done (Load.script_update _),
      Load.bind_of_done (Load.script_update _), ← hrun, ← hr]
    rfl

/-! ## Asking through the `require` of a module -/

/-- What a step asks for. -/
def ModuleStep.asked : ModuleStep → List String
  | .require specifier _ | .adopt specifier | .snapshot specifier _ | .try specifier _ =>
    [specifier]
  | .same first second _ => [first, second]
  | _ => []

namespace Host

/-- The steps that stand in the file of a module. -/
def program (h : Host) (p : Path) : List ModuleStep :=
  match h.workspace.world.tree.readText p with
  | .error _ => []
  | .ok text =>
    match Json.parse text with
    | .error _ => []
    | .ok j => (j.arr?.getD []).filterMap ModuleStep.ofJson?

/-- What a module asks for. -/
def Asks (h : Host) (p : Path) (specifier : String) : Prop :=
  h.registry.handlerFor p = .steps ∧ ∃ step ∈ h.program p, specifier ∈ step.asked

end Host

/-- Calling the `require` that was made for a directory is to ask from there for what the argument
names, if it is a text. -/
theorem Script.call_require_eq {h : Heap} {n : Nat} {own : RealmRef} {r : Ref} {dir : Path}
    (hkind : (h.object r).kind = .native (.require dir) own) (realm : RealmRef) (this : Value)
    (args : List Value) :
    (Script.machine (n + 1)).call realm (.obj r) this args h =
      Script.Machine.callRequire realm dir args h := by
  have hstart : (Script.machine (n + 1)).call realm (.obj r) this args h =
      (Script.machine n).callObject realm (.obj r) this args h := rfl
  rw [hstart, Script.Machine.callObject, Eval.read_bind, hkind]
  rfl

theorem Script.call_require {h : Heap} {realm own : RealmRef} {r : Ref} {dir : Path}
    (hkind : (h.object r).kind = .native (.require dir) own) (this : Value) (specifier : String) :
    Script.standardMachine.call realm (.obj r) this [.text specifier] h =
      Eval.ask (.require specifier dir realm) h := by
  have htext : Script.textOf h (.text specifier) = .ok specifier := by
    simp only [Script.textOf, Value.text, Script.key, Text.Utf16.toString?_ofString]
  have hcall : Script.standardMachine.call realm (.obj r) this [.text specifier] h =
      Script.Machine.callRequire realm dir [.text specifier] h :=
    Script.call_require_eq (n := Script.depthLimit - 1) hkind realm this _
  simp only [hcall, Script.Machine.callRequire, Eval.read_bind, htext]

namespace Host

variable {g : Host}

/-- A registered module is given back at every depth. -/
theorem loadWithin_of_registered (hm : g.registry.modules.get? p = some m) (depth : Nat) :
    loadWithin depth realm p g = (.ok m, g) := by
  cases depth <;> rw [loadWithin, hm]

/-- Any other module is loaded anew. -/
theorem load_of_not_registered (hp : g.registry.modules.get? p = none) :
    load realm p g = g.loadNew (answerWithin (depthLimit - 1)) realm p := by
  change loadWithin (depthLimit - 1 + 1) realm p g = _
  rw [loadWithin, hp]

end Host

/-- Whatever a module asks for is asked for from the directory of its `require`. -/
theorem ModuleStep.ask_eq {w : Workspace} {realm own : RealmRef} {m r : Ref} {dir : Path}
    (hr : w.heap.own m (Script.key "require") = some (.plain (.obj r)))
    (hkind : (w.heap.object r).kind = .native (.require dir) own) (specifier : String) :
    ModuleStep.ask realm m specifier w =
      .ask ⟨specifier, dir, realm⟩ w fun a w => .done (a.mapError .thrown, w) := by
  have hcallable : w.heap.callable (.obj r) = true := by
    rw [Heap.callable, Script.Object.callable, hkind]
  have hproperty : Load.property realm m "require" w = .done (.ok (.obj r), w) :=
    Load.script_of_done (Script.Machine.getRef_of_holds _ ⟨true, true, true, hr⟩)
  have hrequire : Sandbox.requireOf realm m w = .done (.ok (.obj r), w) := by
    have hread : Load.read (fun w => w.heap.callable (.obj r)) w = .done (.ok true, w) := by
      rw [Load.read]
      exact congrArg (fun b => Dialogue.done (Except.ok b, w)) hcallable
    rw [Sandbox.requireOf, Load.bind_of_done hproperty, Load.bind_of_done hread]
    rfl
  rw [ModuleStep.ask, Load.bind_of_done hrequire, Load.script, Script.call_require hkind, Eval.ask,
    Load.ofRun]
  congr 1
  funext a w
  cases a <;> rfl

end LoadHook
