import LoadHook.Proofs.Module.Failure
import LoadHook.Proofs.Module.Making
import LoadHook.Proofs.Script.Datum

/-!
# Modules that keep the heap in order

A module that is given as steps exports data, and changes nothing but data and its own exports. So
module objects stay what they are, whatever modules ask each other for and however they are
entangled: each says which file it was made for, and asks from the directory of that file. `Orderly`
says so of a step of a load that is under way, and of all that it asks for.
-/
namespace LoadHook

open Script (Value RealmRef Ref Heap Eval Key Object Among ground)
open Host (homeRealm)

/-! ## Heaps in order -/

/-- A failure that modules given as steps come to: it leaves an error outside of scripts, or it is
what is thrown where loads are nested too deep. -/
def Failure.Told (h : Heap) (e : Failure) : Prop :=
  (∃ err, e.Leaves h err) ∨ e = .thrown .undefined

namespace Script.Heap

variable {h h' h'' : Heap} {p : Path} {m n r : Ref} {k : Key} {v : Value} {q : Object}

theorem Data.kind_ne (hr : h.Data r) (f : Script.Native) (own : RealmRef) :
    (h.object r).kind ≠ .native f own := by
  rcases Object.kind_of_isData hr.like.data with hkind | hkind <;> rw [hkind] <;> nofun

/-- An object is the module object of a path: it says so, it exports data, and its `require` starts
from the directory of the path. -/
structure ModuleAt (h : Heap) (p : Path) (m : Ref) : Prop where
  above : ground.objects.size ≤ m
  kind : (h.object m).kind = .plain
  id : h.own m (Script.key "id") = some (.plain (.text p.text))
  filename : h.own m (Script.key "filename") = some (.plain (.text p.text))
  loaded : ∃ b, h.Marked m b
  exports : ∃ v, h.own m exportsKey = some (.plain v) ∧ h.Datum v
  require : ∃ r, h.own m (Script.key "require") = some (.plain (.obj r)) ∧
    (h.object r).kind = .native (.require (p.parent.getD "")) homeRealm

/-- A heap goes on from another one in order: data stay data, and modules stay modules. -/
structure Onward (h h' : Heap) : Prop where
  grounded : ground.Extends h'
  data : ∀ r, h.Data r → h'.Data r
  modules : ∀ p m, h.ModuleAt p m → h'.ModuleAt p m

/-- A heap goes on from another one in order, and no module is marked in between. -/
structure Steady (h h' : Heap) : Prop extends h.Onward h' where
  marks : ∀ p m, h.ModuleAt p m → h'.own m loadedKey = h.own m loadedKey

namespace ModuleAt

variable (hm : h.ModuleAt p m)
include hm

theorem inside : m < h.objects.size := lt_size_of_own hm.id

/-- A module holds a function, so it is no data. -/
theorem not_data : ¬ h.Data m := fun hdata => by
  obtain ⟨r, hr, hkind⟩ := hm.require
  rcases hdata.like.own (Script.key "require") with ⟨hnone, -⟩ | ⟨q, q', hq, -, hlike⟩
  · cases hnone.symm.trans hr
  · cases hq.symm.trans hr
    obtain ⟨v, v', hv, -, hvalue⟩ := hlike.content
    cases hv
    exact (hvalue.2 r rfl).kind_ne _ _ hkind

/-- A module object is not the `require` of a module. -/
theorem ne_of_native {f : Script.Native} {own : RealmRef}
    (hkind : (h.object r).kind = .native f own) :
    r ≠ m := by
  rintro rfl
  cases hm.kind.symm.trans hkind

/-- A module stays what it is where it and its `require` do, and its exports stay data. -/
theorem congr (hobject : h'.object m = h.object m)
    (hnative : ∀ r f own, (h.object r).kind = .native f own → h'.object r = h.object r)
    (hdatum : ∀ v, h.Datum v → h'.Datum v) : h'.ModuleAt p m := by
  have hown (k : Key) : h'.own m k = h.own m k := congrArg (·.own k) hobject
  obtain ⟨v, hv, hdata⟩ := hm.exports
  obtain ⟨r, hr, hkind⟩ := hm.require
  exact ⟨hm.above, hobject ▸ hm.kind, (hown _).trans hm.id, (hown _).trans hm.filename,
    hm.loaded.imp fun _ hb => (hown _).trans hb, ⟨v, (hown _).trans hv, hdatum v hdata⟩,
    ⟨r, (hown _).trans hr, hnative r _ _ hkind ▸ hkind⟩⟩

end ModuleAt

namespace Onward

theorem refl (hg : ground.Extends h) : h.Onward h := ⟨hg, fun _ => id, fun _ _ => id⟩

theorem trans (a : h.Onward h') (b : h'.Onward h'') : h.Onward h'' where
  grounded := b.grounded
  data r hr := b.data r (a.data r hr)
  modules p m hm := b.modules p m (a.modules p m hm)

theorem datum (a : h.Onward h') (hv : h.Datum v) : h'.Datum v := fun r hr => a.data r (hv r hr)

/-- Objects may be added. -/
theorem of_extends (hg : ground.Extends h) (e : h.Extends h') : h.Onward h' where
  grounded := hg.trans e
  data r hr := hr.extends e
  modules p m hm := hm.congr (e.object m hm.inside)
    (fun r f own hkind => e.object r (by
      by_contra hr
      rw [object, Array.getElem?_eq_none (Nat.le_of_not_lt hr)] at hkind
      cases hkind))
    fun v hv => hv.extends e

/-- What has been added to the ground may be changed. -/
theorem grounded_modifyObject (hg : ground.Extends h) (hr : ground.objects.size ≤ r)
    (f : Object → Object) : ground.Extends (h.modifyObject r f) where
  size := by simpa using hg.size
  object s hs := by
    rw [object_modifyObject_of_ne f (Nat.ne_of_lt (Nat.lt_of_lt_of_le hs hr)), hg.object s hs]
  realms := hg.realms
  scopes := hg.scopes

/-- Data may be replaced by data. -/
theorem withObject (hg : ground.Extends h) (hr : h.Data r) (hq : q.Like (Among h.Data) q) :
    h.Onward (h.withObject r q) where
  grounded := grounded_modifyObject hg hr.above _
  data _ hs := hs.withObject hr hq
  modules _ _ hm := hm.congr (object_modifyObject_of_ne _ fun e => hm.not_data (e ▸ hr))
    (fun _ f own hkind => object_modifyObject_of_ne _ fun e => hr.kind_ne f own (e ▸ hkind))
    fun _ hv s hs => (hv s hs).withObject hr hq

/-- A module may be changed as long as it stays a module. -/
theorem putModule {c : Script.Property} (hg : ground.Extends h) (hm : h.ModuleAt p m)
    (hself : ∀ p, h.ModuleAt p m → (h.putOwn m k c).ModuleAt p m) :
    h.Onward (h.putOwn m k c) where
  grounded := grounded_modifyObject hg hm.above _
  data r hr := hr.modifyObject hm.not_data _
  modules p' n hn := by
    by_cases hne : n = m
    · exact hne ▸ hself p' (hne ▸ hn)
    · exact hn.congr (object_modifyObject_of_ne _ hne)
        (fun r f own hkind => object_modifyObject_of_ne _ (hm.ne_of_native hkind))
        fun v hv r hr => (hv r hr).modifyObject hm.not_data _

end Onward

namespace Steady

theorem refl (hg : ground.Extends h) : h.Steady h := ⟨.refl hg, fun _ _ _ => rfl⟩

theorem trans (a : h.Steady h') (b : h'.Steady h'') : h.Steady h'' where
  toOnward := a.toOnward.trans b.toOnward
  marks p m hm := (b.marks p m (a.modules p m hm)).trans (a.marks p m hm)

theorem of_extends (hg : ground.Extends h) (e : h.Extends h') : h.Steady h' where
  toOnward := .of_extends hg e
  marks _ _ hm := e.own hm.inside

theorem withObject (hg : ground.Extends h) (hr : h.Data r) (hq : q.Like (Among h.Data) q) :
    h.Steady (h.withObject r q) where
  toOnward := .withObject hg hr hq
  marks _ m hm := by
    have hne : m ≠ r := fun e => hm.not_data (e ▸ hr)
    exact congrArg (·.own loadedKey) (object_modifyObject_of_ne _ hne)

/-- A module may be changed as long as it stays a module and keeps its mark. -/
theorem putModule {c : Script.Property} (hg : ground.Extends h) (hm : h.ModuleAt p m)
    (hk : loadedKey ≠ k) (hself : ∀ p, h.ModuleAt p m → (h.putOwn m k c).ModuleAt p m) :
    h.Steady (h.putOwn m k c) where
  toOnward := .putModule hg hm hself
  marks _ n _ := by
    by_cases hne : n = m
    · rw [hne, own, object_putOwn_self hm.inside, Object.own_put_of_ne hk]
      rfl
    · rw [own, object_putOwn_of_ne hne]
      rfl

end Steady

namespace ModuleAt

/-- A property is put into a module object that leaves its file and its `require` alone. -/
theorem putOwn {c : Script.Property} (hm : h.ModuleAt p m)
    (hk : k ∉ [Script.key "id", Script.key "filename", Script.key "require"])
    (hloaded : ∃ b, (h.putOwn m k c).Marked m b)
    (hexports : ∃ v, (h.putOwn m k c).own m exportsKey = some (.plain v) ∧ h.Datum v) :
    (h.putOwn m k c).ModuleAt p m := by
  have hown {l : Key} (hl : l ≠ k) : (h.putOwn m k c).own m l = h.own m l := by
    rw [own, object_putOwn_self hm.inside, Object.own_put_of_ne hl]
    rfl
  simp only [List.mem_cons, List.not_mem_nil, or_false, not_or] at hk
  obtain ⟨hid, hfile, hrequire⟩ := hk
  obtain ⟨v, hv, hdata⟩ := hexports
  obtain ⟨r, hr, hkind⟩ := hm.require
  refine ⟨hm.above, ?_, (hown (Ne.symm hid)).trans hm.id, (hown (Ne.symm hfile)).trans hm.filename,
    hloaded, ⟨v, hv, fun s hs => (hdata s hs).modifyObject hm.not_data _⟩,
    ⟨r, (hown (Ne.symm hrequire)).trans hr, ?_⟩⟩
  · rw [object_putOwn_self hm.inside]
    exact hm.kind
  · rw [object_putOwn_of_ne (hm.ne_of_native hkind)]
    exact hkind

/-- A module may replace its exports by data. -/
theorem putExports (hm : h.ModuleAt p m) (hv : h.Datum v) :
    (h.putOwn m exportsKey (.plain v)).ModuleAt p m := by
  refine hm.putOwn (by decide) (hm.loaded.imp fun b hb => ?_) ⟨v, ?_, hv⟩
  · rw [Marked, own, object_putOwn_self hm.inside, Object.own_put_of_ne (by decide)]
    exact hb
  · obtain ⟨u, hu, -⟩ := hm.exports
    have hu : (h.object m).own exportsKey = some (.plain u) := hu
    rw [own, object_putOwn_self hm.inside]
    exact Object.own_put_of_writable (v := u) (by rw [hu]; rfl)

/-- A module may be marked as loaded. -/
theorem mark (hm : h.ModuleAt p m) : (h.mark m).ModuleAt p m := by
  obtain ⟨b, hb⟩ := hm.loaded
  obtain ⟨v, hv, hdata⟩ := hm.exports
  refine hm.putOwn (by decide) ⟨true, marked_mark hb⟩ ⟨v, ?_, hdata⟩
  rw [own, object_putOwn_self hm.inside, Object.own_put_of_ne (by decide)]
  exact hv

end ModuleAt
end Script.Heap

/-- A new module object is the one of its path. -/
theorem Furnished.moduleAt {w w' : Workspace} {p : Path} {m : Ref} (hg : ground.Extends w.heap)
    (hw : Furnished homeRealm p w m w') : w'.heap.ModuleAt p m := by
  have hdata : w'.heap.Data (m + 1) := by
    refine ⟨(· = m + 1), ?_, rfl⟩
    constructor
    · rintro r rfl
      rw [hw.fresh]
      exact Nat.le_trans hg.size (Nat.le_add_right _ 2)
    · rintro r rfl
      rw [hw.heap, hw.fresh]
      exact Nat.lt_of_lt_of_eq (Nat.lt_succ_self _) Heap.size_furnished.symm
    · rintro r rfl
      rw [hw.empty, Heap.blank, hg.realm]
      exact ⟨rfl, rfl, ⟨rfl, rfl⟩, .top (.inl rfl), .nil, by rintro ⟨⟩⟩
  refine ⟨?_, hw.object ▸ rfl, (hw.own _).trans rfl, (hw.own _).trans rfl, ⟨false, hw.unmarked⟩,
    ⟨_, hw.exports, fun r hr => Value.obj.inj hr ▸ hdata⟩, ⟨_, (hw.own _).trans rfl, ?_⟩⟩
  · rw [hw.fresh]
    exact Nat.le_trans hg.size (Nat.le_add_right _ 1)
  · rw [hw.heap, Heap.object_furnished_require]
    rfl

end LoadHook
