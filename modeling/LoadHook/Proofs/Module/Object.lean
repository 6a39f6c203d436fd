import LoadHook.Module.Entry
import LoadHook.Proofs.Script.Realm
import LoadHook.Proofs.Text.Utf16
import Mathlib.Data.List.TakeWhile

/-!
# Module objects

Making a module object, marking it as loaded and reading its exports run no script as long as
the names of a module mean nothing special to the objects above it, and `Heap.PlainFor` says so of a
realm.
-/
namespace LoadHook

open Script (Value RealmRef Ref Heap Eval Key Property Object)

namespace Load

variable {α β : Type} {w w' : Workspace} {a : α}

/-- Going on after a step that has ended with a value. -/
theorem bind_of_done {x : Load α} {f : α → Load β} (hx : x w = .done (.ok a, w')) :
    (x >>= f) w = f a w' := by
  change Load.bind x f w = f a w'
  simp [Load.bind, hx]

/-- Nothing comes after a step that has failed. -/
theorem bind_of_failed {x : Load α} {f : α → Load β} {e : Failure}
    (hx : x w = .done (.error e, w')) : (x >>= f) w = .done (.error e, w') := by
  change Load.bind x f w = .done (.error e, w')
  simp [Load.bind, hx]

theorem bind_congr {x y : Load α} {f : α → Load β} (hxy : x w = y w) :
    (x >>= f) w = (y >>= f) w := by
  change Load.bind x f w = Load.bind y f w
  simp [Load.bind, hxy]

theorem readFile_of_ok {p : Path} {text : String} (ht : w.world.tree.readText p = .ok text) :
    readFile p w = .done (.ok text, w) := by
  have hread : read (fun w => w.world.tree.readText p) w = .done (.ok (.ok text), w) := by
    rw [read, ht]
  exact bind_of_done hread

theorem readFile_of_error {p : Path} {cause : Cause}
    (ht : w.world.tree.readText p = .error cause) :
    readFile p w = .done (.error (.error (.unreadable p cause)), w) := by
  have hread : read (fun w => w.world.tree.readText p) w = .done (.ok (.error cause), w) := by
    rw [read, ht]
  exact bind_of_done hread

/-- A text without NUL is let through. -/
theorem withoutNul_of_notMem {text : String} (h : '\x00' ∉ text.toList) :
    withoutNul text w = .done (.ok text, w) := by
  have hall : text.toList.takeWhile (· != '\x00') = text.toList :=
    List.takeWhile_eq_self_iff.mpr fun ch hch => by
      simp only [bne_iff_ne]
      rintro rfl
      exact h hch
  have hnot : ¬ text.toList.length < text.length := by
    rw [String.length_toList]
    exact Nat.lt_irrefl _
  simp only [withoutNul, hall, hnot, if_false]
  rfl

/-- A step that has ended with a value has gone through a value of its first part. -/
theorem of_bind_done {x : Load α} {f : α → Load β} {b : β}
    (h : (x >>= f) w = .done (.ok b, w')) :
    ∃ a w₁, x w = .done (.ok a, w₁) ∧ f a w₁ = .done (.ok b, w') := by
  change Load.bind x f w = _ at h
  cases hx : x w with
  | ask q s next => simp [Load.bind, hx] at h
  | done r =>
    obtain ⟨r, w₁⟩ := r
    cases r with
    | error e => simp [Load.bind, hx] at h
    | ok a => exact ⟨a, w₁, rfl, by simpa [Load.bind, hx] using h⟩

theorem script_of_done {x : Eval α} {h : Heap} (hx : x w.heap = .done (.ok a, h)) :
    script x w = .done (.ok a, { w with heap := h }) := by
  simp only [script, hx, ofRun]
  rfl

@[simp] theorem script_update (f : Heap → α × Heap) :
    script (Eval.update f) w = .done (.ok (f w.heap).1, { w with heap := (f w.heap).2 }) :=
  script_of_done (Eval.update_apply f)

end Load

/-! ## Names of a module -/

/-- The names under which a module object holds what the host gives it. -/
def moduleNames : List String := ["id", "filename", "loaded", "exports", "require"]

/-- The key of the mark that a module has been loaded. -/
def loadedKey : Key := Script.key "loaded"

/-- The key of what a module exports. -/
def exportsKey : Key := Script.key "exports"

theorem plain_names : ∀ name ∈ moduleNames,
    Script.key name ≠ Script.lengthKey ∧ Script.index? (Script.key name) = none := by
  decide

theorem free_moduleNames : ∀ name ∈ moduleNames, Script.key name ∉ [Script.protoKey] := by
  decide

/-- For code of a realm the names of a module mean nothing special: the object above all plain
objects has nothing above it, and no accessor or fixed property of these names. -/
structure Script.Heap.PlainFor (h : Heap) (realm : RealmRef) : Prop where
  inside : (h.realm realm).objectProto < h.objects.size
  top : (h.object (h.realm realm).objectProto).proto = none
  free : ∀ name ∈ moduleNames, ∀ p, h.own (h.realm realm).objectProto (Script.key name) = some p →
    ∃ v, p.content = .data v true

/-- What was in a heap is in another one as it was. -/
structure Script.Heap.Extends (h h' : Heap) : Prop where
  size : h.objects.size ≤ h'.objects.size
  object : ∀ r < h.objects.size, h'.object r = h.object r
  realms : h'.realms = h.realms
  scopes : h'.scopes = h.scopes

namespace Script.Heap.Extends

variable {h h' h'' : Heap} {o : Object} {r : Ref} {k : Key} {p : Property}

theorem realm (e : h.Extends h') (n : RealmRef) : h'.realm n = h.realm n := by
  rw [Heap.realm, e.realms, ← Heap.realm]

theorem refl (h : Heap) : h.Extends h := ⟨Nat.le_refl _, fun _ _ => rfl, rfl, rfl⟩

theorem trans (a : h.Extends h') (b : h'.Extends h'') : h.Extends h'' where
  size := Nat.le_trans a.size b.size
  object r hr := by rw [b.object r (Nat.lt_of_lt_of_le hr a.size), a.object r hr]
  realms := b.realms.trans a.realms
  scopes := b.scopes.trans a.scopes

theorem addObject (h : Heap) (o : Object) : h.Extends (h.addObject o).2 where
  size := by simp
  object r hr := object_addObject_of_lt hr
  realms := rfl
  scopes := rfl

/-- What is put into an object that is new changes nothing of the old ones. -/
theorem putOwn (e : h.Extends h') (hr : h.objects.size ≤ r) : h.Extends (h'.putOwn r k p) where
  size := by simpa using e.size
  object s hs := by
    rw [object_putOwn_of_ne (Nat.ne_of_lt (Nat.lt_of_lt_of_le hs hr)), e.object s hs]
  realms := e.realms
  scopes := e.scopes

theorem own (e : h.Extends h') (hr : r < h.objects.size) : h'.own r k = h.own r k := by
  simp only [Heap.own, e.object r hr]

/-- What an object had it has still. -/
theorem own_of_own (e : h.Extends h') (hk : h.own r k = some p) : h'.own r k = some p := by
  rw [e.own (lt_size_of_own hk), hk]

end Script.Heap.Extends

/-! ## Making a module object -/

/-- An object that is being made above all objects of a heap, with the properties that it has
so far. -/
structure Newborn (h₀ : Heap) (realm : RealmRef) (r : Ref) (props : List (Key × Property))
    (h : Heap) : Prop where
  fresh : h₀.objects.size ≤ r
  inside : r < h.objects.size
  old : h₀.Extends h
  object : h.object r = ⟨.plain, some (h₀.realm realm).objectProto, true, props⟩

namespace Newborn

variable {h₀ h : Heap} {realm : RealmRef} {r : Ref} {props : List (Key × Property)} {o : Object}

theorem own (b : Newborn h₀ realm r props h) (k : Key) : h.own r k = Script.findKey k props := by
  simp [Heap.own, b.object, Object.own]

theorem addObject (b : Newborn h₀ realm r props h) :
    Newborn h₀ realm r props (h.addObject o).2 where
  fresh := b.fresh
  inside := by simpa using Nat.lt_succ_of_lt b.inside
  old := b.old.trans (.addObject h o)
  object := by rw [Heap.object_addObject_of_lt b.inside, b.object]

theorem putOwn (b : Newborn h₀ realm r props h) (k : Key) (p : Property) :
    Newborn h₀ realm r (Script.putKey k p props) (h.putOwn r k p) where
  fresh := b.fresh
  inside := by simpa using b.inside
  old := b.old.putOwn b.fresh
  object := by rw [Heap.object_putOwn_self b.inside, b.object]; rfl

/-- Where the names of a module mean nothing special, setting a new one of them adds it. -/
theorem setProperty (b : Newborn h₀ realm r props h) (hp : h₀.PlainFor realm) (w : Workspace)
    {name : String} (hn : name ∈ moduleNames)
    (hk : Script.findKey (Script.key name) props = none) (v : Value) :
    Load.setProperty realm r name v { w with heap := h } =
      .done (.ok (), { w with heap := h.putOwn r (Script.key name) (.plain v) }) := by
  have hown : h.own r (Script.key name) = none := by rw [b.own, hk]
  have hfind := Heap.find_of_own_eq_none hown (by rw [b.object])
    (Nat.lt_of_lt_of_le hp.inside b.old.size) (by rw [b.old.object _ hp.inside]; exact hp.top)
  refine Load.script_of_done (Script.Machine.assign_new _ hown (by rw [b.object])
    (fun q hq => ?_) (.inr (plain_names name hn)))
  rw [hfind, b.old.own hp.inside] at hq
  exact hp.free name hn q hq

end Newborn

theorem newborn_addPlain (h : Heap) (realm : RealmRef) (p : Path) :
    Newborn h realm
      ((h.addNative realm (h.realm realm).functionProto (.require (p.parent.getD "")) "require"
        1).2.addPlain (some (h.realm realm).objectProto)).1 []
      ((h.addNative realm (h.realm realm).functionProto (.require (p.parent.getD "")) "require"
        1).2.addPlain (some (h.realm realm).objectProto)).2 where
  fresh := by simp [Heap.addNative, Heap.addPlain]
  inside := by simp [Heap.addPlain]
  old := (Heap.Extends.addObject h _).trans (Heap.Extends.addObject _ _)
  object := Heap.object_addObject_self

/-- Whatever is set on its way, a module object that is made without asking for anything is
new. -/
theorem ref_newModule {realm : RealmRef} {p : Path} {m : Ref} {w w' : Workspace}
    (h : Host.newModule realm p w = .done (.ok m, w')) : m = w.heap.objects.size + 1 := by
  rw [Host.newModule, Load.bind_of_done (Load.script_update _),
    Load.bind_of_done (Load.script_update _)] at h
  obtain ⟨_, _, -, h⟩ := Load.of_bind_done h
  obtain ⟨_, _, -, h⟩ := Load.of_bind_done h
  obtain ⟨_, _, -, h⟩ := Load.of_bind_done h
  obtain ⟨_, _, -, h⟩ := Load.of_bind_done h
  obtain ⟨_, _, -, h⟩ := Load.of_bind_done h
  obtain ⟨_, _, -, h⟩ := Load.of_bind_done h
  cases h
  simp [Heap.addNative, Heap.addPlain]

/-- A new realm may be given the console. -/
theorem Script.Heap.Raised.addConsole {h₀ h : Heap} {r : Script.Realm}
    (hr : Script.Heap.Raised h₀ r h) :
    Script.Heap.Raised h₀ r (h.addConsole h₀.realms.size) := by
  have hspare := hr.spare
  have hmade := hr.addObject ⟨.plain, some r.objectProto, true, []⟩
  simp only [Script.Heap.addConsole, Script.Heap.addPlain, hr.realm_self,
    Script.Heap.ref_addObject]
  refine Script.Heap.Raised.putData ?_ hr.above.global _ ⟨_, rfl⟩
  generalize (h.addObject _).2 = g at hmade
  generalize consoleFunctions = fs
  induction fs generalizing g with
  | nil => exact hmade
  | cons f fs ih => exact ih _ ((hmade.addObject _).putSpare hspare _ _)

/-- In a new realm the names of a module mean nothing special. -/
theorem Script.Heap.Raised.plainFor {h₀ h : Heap} {r : Script.Realm}
    (hr : Script.Heap.Raised h₀ r h) : h.PlainFor h₀.realms.size := by
  obtain ⟨tops, htop, -⟩ := hr.top.shape
  refine ⟨?inside, ?top, fun name hn p hp => ?free⟩
  case inside => rw [hr.realm_self]; exact hr.top.inside
  case top => rw [hr.realm_self, htop]
  case free =>
    rw [hr.realm_self] at hp
    exact hr.top.content_of_own (by simp) hp (free_moduleNames name hn)

/-- In the realm that a host starts with they mean nothing special either. -/
theorem plainFor_start (w : World) : (Host.start w).workspace.heap.PlainFor Host.homeRealm := by
  obtain ⟨hrealm, r, hr⟩ := Script.Heap.empty.finished_addRealm
  have hstarted : (Host.start w).workspace.heap =
      Heap.empty.addRealm.2.addConsole Heap.empty.realms.size := by
    rw [← hrealm]
    rfl
  rw [hstarted]
  exact hr.toRaised.addConsole.plainFor

/-! ## Reading and marking a module -/

/-- Whether a module object says of itself that it has been loaded. -/
def Script.Heap.Marked (h : Heap) (module : Ref) (b : Bool) : Prop :=
  h.own module loadedKey = some (.plain (.bool b))

namespace Script.Heap

variable {h h' : Heap} {m n : Ref} {b c : Bool}

theorem Marked.lt_size (hm : h.Marked m b) : m < h.objects.size := lt_size_of_own hm

theorem Marked.extends (e : h.Extends h') (hm : h.Marked m b) : h'.Marked m b := e.own_of_own hm

/-- The heap with a module object marked as loaded. -/
def mark (h : Heap) (module : Ref) : Heap := h.putOwn module loadedKey (.plain (.bool true))

theorem marked_mark (hm : h.Marked m b) : (h.mark m).Marked m true := by
  have ho : (h.object m).own loadedKey = some (.plain (.bool b)) := hm
  simp only [Marked, mark, own, object_putOwn_self hm.lt_size]
  exact Object.own_put_of_writable (v := .bool b) (by rw [ho]; rfl)

theorem marked_mark_of_ne (hn : n ≠ m) (hm : h.Marked n b) : (h.mark m).Marked n b := by
  simpa only [Marked, mark, own, object_putOwn_of_ne hn] using hm

end Script.Heap

/-- Marking a module object that has its mark still runs no script. -/
theorem setLoaded_of_marked {realm : RealmRef} {module : Ref} {w : Workspace} {b : Bool}
    (hm : w.heap.Marked module b) :
    Load.setProperty realm module "loaded" (.bool true) w =
      .done (.ok (), { w with heap := w.heap.mark module }) := by
  have hn := plain_names "loaded" (by decide)
  exact Load.script_of_done (Script.Machine.assign_own _ hm (.inr hn))

/-- The file of a module that holds a text is read without running a script. -/
theorem filename_of_holds {realm : RealmRef} {module : Ref} {w : Workspace} {s : Text.Utf16}
    {text : String} (hs : w.heap.Holds module (Script.key "filename") (.str s))
    (ht : Text.Utf16.toString? s = .ok text) :
    Load.filename realm module w = .done (.ok (Path.ofString text), w) := by
  have hproperty : Load.property realm module "filename" w = .done (.ok (.str s), w) :=
    Load.script_of_done (Script.Machine.getRef_of_holds _ hs)
  have hread : Load.read (fun w => Script.textOf w.heap (.str s)) w =
      .done (.ok (.ok text), w) := by
    simp only [Load.read, Script.textOf, ht]
  have htext : Load.textProperty realm module "filename" w = .done (.ok text, w) := by
    rw [Load.textProperty, Load.bind_of_done hproperty, Load.bind_of_done hread]
    rfl
  exact Load.bind_of_done htext

/-- The file of a module that holds its path is that path. -/
theorem filename_of_holds_path {realm : RealmRef} {module : Ref} {w : Workspace} {p : Path}
    (hp : w.heap.Holds module (Script.key "filename") (.text p.text)) :
    Load.filename realm module w = .done (.ok p, w) := by
  have hread : Load.filename realm module w = .done (.ok (Path.ofString p.text), w) :=
    filename_of_holds hp (Text.Utf16.toString?_ofString p.text)
  rwa [Path.ofString, Path.text, String.toList_ofList] at hread

/-- Exports that are plain data are read without running a script. -/
theorem exports_of_holds {realm : RealmRef} {module : Ref} {w : Workspace} {v : Value}
    (hv : w.heap.Holds module exportsKey v) :
    Load.exports realm module w = .done (.ok v, w) :=
  Load.script_of_done (Script.Machine.getRef_of_holds _ hv)

/-- Making the value that is thrown runs no script and adds to the heap at most. -/
theorem throwable_done (realm : RealmRef) (e : Failure) (w : Workspace) :
    ∃ v h, Load.throwable realm e w = .done (.ok v, { w with heap := h }) ∧ w.heap.Extends h := by
  cases e with
  | thrown v => exact ⟨v, w.heap, rfl, .refl _⟩
  | error e =>
    cases e <;> exact ⟨_, _, Load.script_update _, .addObject _ _⟩

end LoadHook
