import LoadHook.Proofs.Module.Globals
import LoadHook.Proofs.Module.Orderly

/-!
# Neutral realms

Modules that do no more than ask for others add objects, scopes and realms to the heap, and of what
there was they change nothing, but that the host marks module objects as loaded. `Continues` says so
of two heaps, and that all realms are neutral: the names of a module mean nothing special there, and
what is shown can be copied to the next realm. So each of these modules is made and set up without
running any script, and its text finds the `require` that was made for it.
-/
namespace LoadHook

open Script (Value RealmRef ScopeRef Ref Heap Eval Key Property Object Realm Scope)
open Host (homeRealm)

namespace Script

/-- Of two properties that are put under the same key the second one stays. -/
theorem putKey_putKey (k : Key) (p q : Property) (props : List (Key × Property)) :
    putKey k p (putKey k q props) = putKey k p props := by
  induction props with
  | nil => simp [putKey]
  | cons c rest ih =>
    obtain ⟨l, c⟩ := c
    by_cases hl : l == k
    · simp [putKey, hl]
    · simp [putKey, hl, ih]

theorem Object.put_put (o : Object) (k : Key) (p q : Property) :
    (o.put k q).put k p = o.put k p := congrArg _ (putKey_putKey k p q o.props)

namespace Heap

variable {h h₀ h' h'' : Heap} {r s m f : Ref} {k : Key} {v : Value} {n : RealmRef} {b : Bool}
  {dir : Path}

/-! ## Heaps that keep what there was -/

/-- What there was in a heap is in another one as it was, but for objects that had the mark of a
module and have been marked as loaded. -/
structure Retains (h h' : Heap) : Prop where
  size : h.objects.size ≤ h'.objects.size
  object : ∀ r < h.objects.size, h'.object r = h.object r ∨
    (∃ b, h.Marked r b) ∧ h'.object r = (h.object r).put loadedKey (.plain (.bool true))
  realms : h.realms.size ≤ h'.realms.size
  realm : ∀ n < h.realms.size, h'.realm n = h.realm n
  scopes : h.scopes.size ≤ h'.scopes.size
  scope : ∀ s < h.scopes.size, h'.scope s = h.scope s

theorem marked_of_put (hm : h.Marked r b)
    (hr : h'.object r = (h.object r).put loadedKey (.plain (.bool true))) : h'.Marked r true := by
  have hown : (h.object r).own loadedKey = some (.plain (.bool b)) := hm
  rw [Marked, own, hr]
  exact Object.own_put_of_writable (v := .bool b) (by rw [hown]; rfl)

namespace Retains

theorem refl (h : Heap) : h.Retains h :=
  ⟨Nat.le_refl _, fun _ _ => .inl rfl, Nat.le_refl _, fun _ _ => rfl, Nat.le_refl _, fun _ _ => rfl⟩

theorem trans (a : h.Retains h') (b : h'.Retains h'') : h.Retains h'' where
  size := Nat.le_trans a.size b.size
  object r hr := by
    rcases a.object r hr with hsame | ⟨hmark, hput⟩ <;>
      rcases b.object r (Nat.lt_of_lt_of_le hr a.size) with hsame' | ⟨hmark', hput'⟩
    · exact .inl (hsame'.trans hsame)
    · refine .inr ⟨hmark'.imp fun b hb => ?_, hput'.trans (by rw [hsame])⟩
      rwa [Marked, own, ← hsame]
    · exact .inr ⟨hmark, hsame'.trans hput⟩
    · exact .inr ⟨hmark, hput'.trans (by rw [hput, Object.put_put])⟩
  realms := Nat.le_trans a.realms b.realms
  realm n hn := (b.realm n (Nat.lt_of_lt_of_le hn a.realms)).trans (a.realm n hn)
  scopes := Nat.le_trans a.scopes b.scopes
  scope s hs := (b.scope s (Nat.lt_of_lt_of_le hs a.scopes)).trans (a.scope s hs)

theorem of_extends (e : h.Extends h') : h.Retains h' where
  size := e.size
  object r hr := .inl (e.object r hr)
  realms := Nat.le_of_eq (congrArg Array.size e.realms.symm)
  realm n _ := e.realm n
  scopes := Nat.le_of_eq (congrArg Array.size e.scopes.symm)
  scope s _ := by rw [Heap.scope, e.scopes, ← Heap.scope]

theorem mark (hm : h.Marked m b) : h.Retains (h.mark m) := by
  refine ⟨Nat.le_of_eq size_putOwn.symm, fun r _ => ?_, Nat.le_refl _, fun _ _ => rfl,
    Nat.le_refl _, fun _ _ => rfl⟩
  by_cases hr : r = m
  · subst hr
    exact .inr ⟨⟨b, hm⟩, object_putOwn_self hm.lt_size⟩
  · exact .inl (object_putOwn_of_ne hr)

/-- The value of the last expression statement is no part of what there was. -/
theorem completion (h : Heap) (v : Value) : h.Retains { h with completion := v } :=
  ⟨Nat.le_refl _, fun _ _ => .inl rfl, Nat.le_refl _, fun _ _ => rfl, Nat.le_refl _, fun _ _ => rfl⟩

theorem of_raised {r : Realm} (hr : Raised h₀ r h) : h₀.Retains h where
  size := Nat.le_of_lt (Nat.lt_of_le_of_lt hr.above.global hr.global.inside)
  object s hs := .inl (hr.old s hs)
  realms := by simp [hr.realms]
  realm n hn := hr.realm_of_lt hn
  scopes := by simp [hr.scopes, Nat.add_assoc]
  scope s hs := by
    simp [Heap.scope, hr.scopes, Array.getElem?_push, Nat.ne_of_lt hs,
      Nat.ne_of_lt (Nat.lt_succ_of_lt hs)]

variable (e : h.Retains h')
include e

theorem kind (hr : r < h.objects.size) : (h'.object r).kind = (h.object r).kind := by
  rcases e.object r hr with hsame | ⟨-, hput⟩
  · rw [hsame]
  · rw [hput]
    rfl

theorem own (hr : r < h.objects.size) (hk : k ≠ loadedKey) : h'.own r k = h.own r k := by
  rcases e.object r hr with hsame | ⟨-, hput⟩
  · rw [Heap.own, hsame, ← Heap.own]
  · rw [Heap.own, hput, Object.own_put_of_ne hk, ← Heap.own]

theorem holds (hv : h.Holds r k v) (hk : k ≠ loadedKey) : h'.Holds r k v := by
  obtain ⟨writable, enumerable, c, hown⟩ := hv
  exact ⟨writable, enumerable, c, (e.own (lt_size_of_own hown) hk).trans hown⟩

theorem marked (hm : h.Marked m b) : ∃ c, h'.Marked m c := by
  rcases e.object m hm.lt_size with hsame | ⟨-, hput⟩
  · exact ⟨b, by rwa [Marked, Heap.own, hsame]⟩
  · exact ⟨true, marked_of_put hm hput⟩

theorem plainFor (hn : n < h.realms.size) (hp : h.PlainFor n) : h'.PlainFor n where
  inside := by
    rw [e.realm n hn]
    exact Nat.lt_of_lt_of_le hp.inside e.size
  top := by
    rw [e.realm n hn]
    rcases e.object _ hp.inside with hsame | ⟨-, hput⟩
    · rw [hsame, hp.top]
    · rw [hput]
      exact hp.top
  free name hname p hown := by
    rw [e.realm n hn] at hown
    by_cases hk : Script.key name = loadedKey
    · rcases e.object _ hp.inside with hsame | ⟨⟨b, hb⟩, hput⟩
      · rw [Heap.own, hsame] at hown
        exact hp.free name hname p hown
      · rw [hk] at hown
        cases (marked_of_put hb hput).symm.trans hown
        exact ⟨_, rfl⟩
    · rw [e.own hp.inside hk] at hown
      exact hp.free name hname p hown

theorem copyable (hc : h.Copyable n) : h'.Copyable n where
  inside := Nat.lt_of_lt_of_le hc.inside e.realms
  global := by
    rw [e.realm n hc.inside]
    exact Nat.lt_of_lt_of_le hc.global e.size
  named := by
    rw [e.realm n hc.inside, Object.isText, e.kind hc.global]
    exact hc.named
  portable c hc' he := by
    rw [e.realm n hc.inside] at hc'
    rcases e.object _ hc.global with hsame | ⟨-, hput⟩
    · rw [hsame] at hc'
      exact hc.portable c hc' he
    · rw [hput] at hc'
      rcases mem_putKey hc' with rfl | hc'
      · decide
      · exact hc.portable c hc' he

/-- What has failed is told as before. -/
theorem told {failure : Failure} (ht : failure.Told h) : failure.Told h' := by
  refine ht.imp_left fun ⟨err, hleaves⟩ => ⟨err, ?_⟩
  cases failure with
  | error _ => exact hleaves
  | thrown v =>
    obtain ⟨r, text, rfl, hr, rfl⟩ := hleaves
    obtain ⟨w, en, c, hown⟩ := hr.message
    exact ⟨r, text, rfl, ⟨(e.kind (lt_size_of_own hown)).trans hr.kind,
      e.holds hr.message (by decide), e.holds hr.stack (by decide)⟩, rfl⟩

end Retains

/-! ## Neutral realms -/

/-- In all realms of a heap the names of a module mean nothing special, and what they show can be
copied. -/
structure Neutral (h : Heap) : Prop where
  home : homeRealm < h.realms.size
  plain : ∀ n < h.realms.size, h.PlainFor n
  copyable : ∀ n < h.realms.size, h.Copyable n

/-- A heap goes on from another one with neutral realms, and keeps what there was. -/
structure Continues (h h' : Heap) : Prop extends h.Retains h' where
  neutral : h'.Neutral

/-- Without new realms all realms stay neutral. -/
theorem Neutral.continues (hn : h.Neutral) (e : h.Retains h')
    (hsize : h'.realms.size = h.realms.size) : h.Continues h' where
  toRetains := e
  neutral := by
    refine ⟨hsize ▸ hn.home, fun n hlt => ?_, fun n hlt => ?_⟩ <;> rw [hsize] at hlt
    · exact e.plainFor hlt (hn.plain n hlt)
    · exact e.copyable (hn.copyable n hlt)

namespace Continues

theorem refl (hn : h.Neutral) : h.Continues h := hn.continues (.refl h) rfl

theorem trans (a : h.Continues h') (b : h'.Continues h'') : h.Continues h'' :=
  ⟨a.toRetains.trans b.toRetains, b.neutral⟩

theorem of_extends (hn : h.Neutral) (e : h.Extends h') : h.Continues h' :=
  hn.continues (.of_extends e) (congrArg Array.size e.realms)

theorem mark (hn : h.Neutral) (hm : h.Marked m b) : h.Continues (h.mark m) :=
  hn.continues (.mark hm) rfl

theorem completion (hn : h.Neutral) (v : Value) : h.Continues { h with completion := v } :=
  hn.continues (.completion h v) rfl

/-- A realm may be added if it is neutral too. -/
theorem of_raised {r : Realm} (hn : h₀.Neutral) (hr : Raised h₀ r h)
    (hc : h.Copyable h₀.realms.size) : h₀.Continues h where
  toRetains := .of_raised hr
  neutral := by
    have e := Retains.of_raised hr
    have hcases {n : RealmRef} (hlt : n < h.realms.size) :
        n < h₀.realms.size ∨ n = h₀.realms.size := by
      rw [hr.realms, Array.size_push] at hlt
      exact Nat.lt_succ_iff_lt_or_eq.mp hlt
    refine ⟨Nat.lt_of_lt_of_le hn.home e.realms, fun n hlt => ?_, fun n hlt => ?_⟩ <;>
      rcases hcases hlt with hold | rfl
    · exact e.plainFor hold (hn.plain n hold)
    · exact hr.plainFor
    · exact e.copyable (hn.copyable n hold)
    · exact hc

end Continues

/-- The heap that a host starts with is neutral. -/
theorem neutral_ground : ground.Neutral := by
  have hground : ground.realms.size = 1 ∧ ground.Copyable homeRealm := by decide +kernel
  obtain ⟨hsize, hc⟩ := hground
  have hhome {n : RealmRef} (hlt : n < ground.realms.size) : n = homeRealm := by
    rw [hsize] at hlt
    exact Nat.lt_one_iff.mp hlt
  refine ⟨hc.inside, fun n hlt => ?_, fun n hlt => ?_⟩ <;> rw [hhome hlt]
  · exact plainFor_ground ⟨⟨[], []⟩, [], ⟨0⟩, 1, #[]⟩
  · exact hc

/-! ## New realms -/

/-- What a global object shows can be copied still when values have been assigned to names. -/
theorem Raised.portable_assignAll {r : Realm} (hr : Raised h₀ r h)
    (hshown : ∀ c ∈ (h.object r.global).props, c.2.enumerable → Portable c.1 c.2)
    {kvs : List (Key × Value)} (hkvs : ∀ c ∈ kvs, Assignable c.1 ∧ c.1 ≠ protoKey) :
    ∀ c ∈ ((h.assignAll r.global kvs).object r.global).props, c.2.enumerable →
      Portable c.1 c.2 := by
  induction kvs with
  | nil => exact hshown
  | cons kv kvs ih =>
    obtain ⟨k, v⟩ := kv
    obtain ⟨ha, hproto⟩ := hkvs _ List.mem_cons_self
    rw [Heap.assignAll, object_putOwn_self (hr.assignAll kvs).global.inside]
    intro c hc he
    rcases mem_putKey hc with rfl | hc
    · exact ⟨by rw [Property.value?_assigned]; rfl, ha.text, ha.free, hproto⟩
    · exact ih (fun c hc => hkvs c (List.mem_cons_of_mem _ hc)) c hc he

theorem Raised.copyable {r : Realm} (hr : Raised h₀ r h)
    (hshown : ∀ c ∈ (h.object r.global).props, c.2.enumerable → Portable c.1 c.2) :
    h.Copyable h₀.realms.size where
  inside := by simp [hr.realms]
  global := hr.realm_self ▸ hr.global.inside
  named := by
    obtain ⟨props, hobject, -⟩ := hr.global.shape
    rw [hr.realm_self, hobject]
    rfl
  portable := by
    rw [hr.realm_self]
    exact hshown

/-- Code of a realm that calls `require` asks for modules from a directory. -/
structure AsksFrom (h : Heap) (realm : RealmRef) (dir : Path) : Prop where
  inside : realm < h.realms.size
  names : ∃ s g, (h.realm realm).lexical < h.scopes.size ∧ s < h.scopes.size ∧
    h.scope (h.realm realm).lexical =
      { (default : Scope) with parent := some s, receiver := .value (.obj g) } ∧
    h.scope s = { (default : Scope) with object := some g } ∧
    ∃ f own, h.Holds g (Script.key "require") (.obj f) ∧ f < h.objects.size ∧
      (h.object f).kind = .native (.require dir) own

theorem AsksFrom.retains (ha : h.AsksFrom n dir) (e : h.Retains h') : h'.AsksFrom n dir := by
  obtain ⟨hn, s, g, hl, hs, hlexical, hscope, f, own, hf, hlt, hkind⟩ := ha
  refine ⟨Nat.lt_of_lt_of_le hn e.realms, s, g, ?_, Nat.lt_of_lt_of_le hs e.scopes, ?_,
    (e.scope s hs).trans hscope, f, own, e.holds hf (by decide), Nat.lt_of_lt_of_le hlt e.size,
    (e.kind hlt).trans hkind⟩ <;> rw [e.realm n hn]
  · exact Nat.lt_of_lt_of_le hl e.scopes
  · exact (e.scope _ hl).trans hlexical

theorem holds_of_assigned {p : Option Property} (hk : h.own r k = some (.assigned p v)) :
    h.Holds r k v := by
  cases p with
  | none => exact ⟨true, true, true, hk⟩
  | some p => exact ⟨true, p.enumerable, p.configurable, hk⟩

/-- Code of a new realm asks from the directory of the `require` that its global object holds. -/
theorem Raised.asksFrom {r : Realm} {own : RealmRef} (hr : Raised h₀ r h)
    (hv : h.Holds r.global (Script.key "require") (.obj f)) (hf : f < h.objects.size)
    (hkind : (h.object f).kind = .native (.require dir) own) :
    h.AsksFrom h₀.realms.size dir where
  inside := by simp [hr.realms]
  names := by
    rw [hr.realm_self, hr.lexical]
    refine ⟨h₀.scopes.size, r.global, ?_, ?_, ?_, ?_, f, own, hv, hf, hkind⟩ <;>
      simp [Heap.scope, hr.scopes, Array.getElem_push, Nat.lt_succ_of_lt]

end Heap
end Script

namespace Sandbox

open Script (key fixedNames protoKey)
open Script.Heap (Raised Assignable Portable)

variable {w : Workspace} {caller : RealmRef} {module f : Ref} {exports : Value} {file dir : Path}

theorem assignable_boundNames :
    ∀ name ∈ boundNames, Assignable (key name) ∧ key name ≠ protoKey := by
  intro name hname
  refine ⟨⟨?_, (free_boundNames name hname).1⟩, (free_boundNames name hname).2⟩
  rw [Script.key, Text.Utf16.toString?_ofString]
  rfl

/-- What is copied from a neutral realm can be assigned. -/
theorem assignable_shownValues (hc : w.heap.Copyable caller) :
    ∀ c ∈ shownValues w.heap caller (w.heap.shownKeys caller),
      Assignable c.1 ∧ c.1 ≠ protoKey := by
  intro c hmem
  rw [shownValues, List.mem_reverse] at hmem
  obtain ⟨k, hk, rfl⟩ := List.mem_map.mp hmem
  exact hc.assignable (hc.frank.mem_shownKeys.mp hk)

theorem assignable_moduleBindings {g : Ref} {require : Value} {output : Path} :
    ∀ c ∈ moduleBindings g module require exports output file,
      Assignable c.1 ∧ c.1 ≠ protoKey := by
  intro c hmem
  have hkey : c.1 ∈ (boundNames.map key).reverse :=
    keys_moduleBindings g module require exports output file ▸ List.mem_map_of_mem hmem
  obtain ⟨name, hname, hk⟩ := List.mem_map.mp (List.mem_reverse.mp hkey)
  rw [← hk]
  exact assignable_boundNames name hname

/-- A realm is set up for a module in a neutral heap: it is neutral too, and its code asks from the
directory of the `require` of the module. -/
theorem prepare_continues (hn : w.heap.Neutral) (hcaller : caller < w.heap.realms.size)
    (hm : Furnished w.heap module (.obj f) exports file) {own : RealmRef}
    (hf : (w.heap.object f).kind = .native (.require dir) own) (output : Path) :
    ∃ h, prepare caller output module w = .done (.ok w.heap.realms.size, { w with heap := h }) ∧
      w.heap.Continues h ∧ h.AsksFrom w.heap.realms.size dir := by
  have hc := hn.copyable caller hcaller
  obtain ⟨filename, text, hlegible, ht, rfl⟩ := hm.legible
  obtain ⟨r, hfinished, hrun⟩ := prepare_eq hc.frank
    (fun k hk => hc.assignable (hc.frank.mem_shownKeys.mp hk)) hlegible
    (callable_addRealm hm.callable) ht output
  have hcopied := hfinished.assignAll (shownValues w.heap caller (w.heap.shownKeys caller))
  have hbound := hcopied.assignAll
    (moduleBindings r.global module (.obj f) exports output (Path.ofString text))
  refine ⟨_, hrun, ?continues, ?asks⟩
  case continues =>
    refine .of_raised hn hbound (hbound.copyable (hcopied.portable_assignAll
      (hfinished.portable_assignAll (fun c hmem he => ?_) (assignable_shownValues hc))
      assignable_moduleBindings))
    obtain ⟨hk, hv⟩ := hfinished.shown c hmem he
    rw [hk]
    exact ⟨hv, rfl, by decide⟩
  case asks =>
    have hlt : f < w.heap.objects.size := by
      refine Nat.lt_of_not_le fun hle => ?_
      rw [Heap.object, Array.getElem?_eq_none hle] at hf
      cases hf
    have hrequire := hcopied.own_assignAll
      (moduleBindings r.global module (.obj f) exports output (Path.ofString text)) (key "require")
    have hlookup : (moduleBindings r.global module (.obj f) exports output
        (Path.ofString text)).lookup (key "require") = some (.obj f) := rfl
    rw [hlookup, Property.received] at hrequire
    have e := Heap.Retains.of_raised hbound
    exact hbound.asksFrom (Heap.holds_of_assigned hrequire) (Nat.lt_of_lt_of_le hlt e.size)
      ((e.kind hlt).trans hf)

end Sandbox
end LoadHook
