import LoadHook.Proofs.Module.Making
import LoadHook.Proofs.Registry.Standing
import LoadHook.Proofs.Script.Showing

/-!
# Modules that are being filled

The steps of a module change its exports, and read what other modules export. Run side by side in
two hosts, they leave exports that are alike, or fail with the same error, as long as what is asked
for is answered alike.
-/
namespace LoadHook

open Script (Value RealmRef Ref Heap Eval Key View Alike ground Made Object)
open Host (homeRealm)

namespace ModuleStep

/-- A step that only changes the exports of the module itself: it sets a member or replaces them by
data, sets a member to what another module exports, to a copy of it, or to how asking for it ends,
or it throws. -/
inductive Own : ModuleStep → Prop
  | set (name : String) (value : Json) : Own (.set name value)
  | replace (value : Json) : Own (.replace value)
  | require (specifier name : String) : Own (.require specifier name)
  | snapshot (specifier name : String) : Own (.snapshot specifier name)
  | try (specifier name : String) : Own (.try specifier name)
  | throw (message : String) : Own (.throw message)

instance : DecidablePred Own
  | .set .. => .isTrue (.set ..)
  | .replace _ => .isTrue (.replace _)
  | .require .. => .isTrue (.require ..)
  | .snapshot .. => .isTrue (.snapshot ..)
  | .try .. => .isTrue (.try ..)
  | .throw _ => .isTrue (.throw _)
  | .adopt _ | .same .. | .info _ | .fail .. => .isFalse nofun

end ModuleStep

namespace Project

variable {P : Project} {s t s' t' : Site} {p : Path} {m m' : Ref} {v v' : Value} {h : Heap}
  {f f' : Host.Answerer} {α : Type}

/-! ## Module objects in the making -/

/-- A module object of a path is being filled: it holds its exports so far, its file and its
`require`, and is not marked as loaded. -/
structure Bench (s : Site) (p : Path) (m : Ref) (v : Value) : Prop where
  owns : s.Owns m
  kind : (s.heap.object m).kind = .plain
  exports : s.heap.own m exportsKey = some (.plain v)
  filename : s.heap.own m (Script.key "filename") = some (.plain (.text p.text))
  unmarked : s.heap.Marked m false
  require : ∃ r, s.heap.own m (Script.key "require") = some (.plain (.obj r)) ∧
    r < s.heap.objects.size ∧ r ∉ s.mine ∧
    (s.heap.object r).kind = .native (.require (p.parent.getD "")) homeRealm

/-- The exports of two modules that are being filled: the same value that is no object, or two
objects of their own that are alike. -/
inductive Draft (s s' : Site) (m m' : Ref) : Value → Value → Prop
  | plain {v : Value} : v.ref? = none → Draft s s' m m' v v
  | object {r r' : Ref} {n : Nat} : s.Owns r → s'.Owns r' → r ≠ m → r' ≠ m' →
      Object.Like (Alike s.view s'.view n) (s.heap.object r) (s'.heap.object r') →
      Draft s s' m m' (.obj r) (.obj r')

/-- The same module is being filled in two hosts, and has come equally far. -/
structure Desk (P : Project) (p : Path) (m m' : Ref) (s s' : Site) : Prop where
  left : P.Sound s
  right : P.Sound s'
  draft : ∃ v v', Bench s p m v ∧ Bench s' p m' v' ∧ Draft s s' m m' v v'

theorem Bench.to (hb : Bench s p m v) (h : P.To s t)
    (hm : t.heap.object m = s.heap.object m) : Bench t p m v := by
  have hown (k : Key) : t.heap.own m k = s.heap.own m k := by rw [Heap.own, hm, Heap.own]
  refine ⟨h.owns hb.owns, hm ▸ hb.kind, (hown _).trans hb.exports, (hown _).trans hb.filename,
    (hown _).trans hb.unmarked, ?_⟩
  obtain ⟨r, hr, hlt, hmine, hkind⟩ := hb.require
  exact ⟨r, (hown _).trans hr, Nat.lt_of_lt_of_le hlt h.size, h.not_mine hlt hmine,
    (h.object r hlt hmine).symm ▸ hkind⟩

theorem Draft.to (hd : Draft s s' m m' v v') (h : P.To s t) (h' : P.To s' t')
    (hr : ∀ r, v = .obj r → t.heap.object r = s.heap.object r)
    (hr' : ∀ r, v' = .obj r → t'.heap.object r = s'.heap.object r) : Draft t t' m m' v v' := by
  cases hd with
  | plain hv => exact .plain hv
  | @object r r' n ho ho' hne hne' hlike =>
    refine .object (n := n) (h.owns ho) (h'.owns ho') hne hne' ?_
    rw [hr r rfl, hr' r' rfl]
    exact hlike.mono fun _ _ hv => hv.keeps h.keeps h'.keeps

/-- New objects leave what is being filled as it is. -/
theorem Desk.extends (hd : P.Desk p m m' s s') (h : P.To s t) (h' : P.To s' t')
    (e : s.heap.Extends t.heap) (e' : s'.heap.Extends t'.heap) : P.Desk p m m' t t' := by
  obtain ⟨v, v', hb, hb', hv⟩ := hd.draft
  refine ⟨h.sound, h'.sound, v, v', hb.to h (e.object m hb.owns.inside),
    hb'.to h' (e'.object m' hb'.owns.inside), ?_⟩
  refine hv.to h h' (fun r hr => ?_) fun r hr => ?_
  · cases hv with
    | plain hv => cases hr ▸ hv
    | object ho => exact e.object r (Value.obj.inj hr ▸ ho.inside)
  · cases hv with
    | plain hv => cases hr ▸ hv
    | object _ ho => exact e'.object r (Value.obj.inj hr ▸ ho.inside)

/-! ## Steps that ask for nothing -/

/-- A script that asks for nothing, run in a host. -/
theorem perform_script {x : Eval α} {r : Except Script.Abrupt α} {g : Heap}
    (hx : x s.heap = .done (r, g)) (new : List Ref) :
    s.host.perform f (Load.script x) =
      (r.mapError Load.failureOf, (s.withHeap g new).host) := by
  have hrun : Load.script x s.host.workspace =
      .done (r.mapError Load.failureOf, { s.host.workspace with heap := g }) := by
    have hheap : x s.host.workspace.heap = .done (r, g) := hx
    rw [Load.script, hheap, Load.ofRun]
  exact Host.perform_of_done hrun

/-- The same error is thrown in two hosts. -/
theorem ends_raise {β γ : Type} {Q : Site → Site → β → γ → Prop} (hs : P.Sound s) (hs' : P.Sound s')
    {x : Eval β} {x' : Eval γ} {kind : Script.ErrorKind} {text : String}
    (hx : x s.heap = Script.raise homeRealm kind text s.heap)
    (hx' : x' s'.heap = Script.raise homeRealm kind text s'.heap) :
    P.Ends s s' Q (s.host.perform f (Load.script x)) (s'.host.perform f' (Load.script x')) := by
  obtain ⟨g, hg, e, hr⟩ := raise_done β homeRealm kind text s.heap
  obtain ⟨g', hg', e', hr'⟩ := raise_done γ homeRealm kind text s'.heap
  rw [perform_script (hx.trans hg) [], perform_script (hx'.trans hg') []]
  exact .failed _ (to_extends hs e (by simp)) (to_extends hs' e' (by simp)) ⟨_, _, rfl, hr, rfl⟩
    ⟨_, _, rfl, hr', rfl⟩

/-- A text is read into new values that are alike, unless it is no JSON text. -/
theorem ends_read (hd : P.Desk p m m' s s') {x x' : Eval Value} {us : Text.Utf16}
    (hx : x s.heap = Script.BuiltIn.parseJson homeRealm us s.heap)
    (hx' : x' s'.heap = Script.BuiltIn.parseJson homeRealm us s'.heap) :
    P.Ends s s' (fun t t' v v' => P.Desk p m m' t t' ∧ t.view.Like t'.view v v')
      (s.host.perform f (Load.script x)) (s'.host.perform f' (Load.script x')) := by
  rcases Script.parseJson_like (a := s.view) (b := s'.view) hd.left.grounded hd.right.grounded
    hd.left.bounded hd.right.bounded us with ⟨⟨v, g⟩, ⟨v', g'⟩, hv, hv', hmade⟩ | hraise
  · rw [perform_script (hx.trans hv) [], perform_script (hx'.trans hv') []]
    have h : P.To s (s.withHeap g []) := to_extends hd.left hmade.extends_left (by simp)
    have h' : P.To s' (s'.withHeap g' []) := to_extends hd.right hmade.extends_right (by simp)
    refine .value h h' ⟨hd.extends h h' hmade.extends_left hmade.extends_right, ?_⟩
    exact hmade.like hd.left.grounded hd.right.grounded hd.left.bounded hd.right.bounded
  · exact ends_raise hd.left hd.right (hx.trans (hraise _)) (hx'.trans (hraise _))

section AddObject

variable {g : Heap} (e : s.heap.Extends g) (o : Object)

include e in
theorem new_addObject : ∀ r ∈ [g.objects.size], s.heap.objects.size ≤ r ∧
    r < (g.addObject o).2.objects.size := by
  intro r hr
  rw [List.mem_singleton.mp hr]
  exact ⟨e.size, by simp⟩

include e in
/-- A new object may be one that is still being made. -/
theorem owns_addObject (hs : P.Sound s) :
    (s.withHeap (g.addObject o).2 [g.objects.size]).Owns g.objects.size :=
  ⟨Nat.le_trans hs.grounded.size e.size, (new_addObject e o _ List.mem_cons_self).2,
    List.mem_cons_self⟩

theorem keeps_addObject :
    View.Keeps ⟨g, s.mine ++ s.outer⟩ (s.withHeap (g.addObject o).2 [g.objects.size]).view :=
  View.keeps_of_extends (.addObject g o) fun _ hr => (List.mem_cons.mp hr).elim
    (fun hr => .inr (Nat.le_of_eq hr.symm)) .inl

end AddObject

/-- A text is read into new values that may become the exports of the module. -/
theorem ends_readDraft (hd : P.Desk p m m' s s') (us : Text.Utf16) :
    P.Ends s s' (fun t t' v v' => P.Desk p m m' t t' ∧ Draft t t' m m' v v')
      (s.host.perform f (Load.script (Script.BuiltIn.parseJson homeRealm us)))
      (s'.host.perform f' (Load.script (Script.BuiltIn.parseJson homeRealm us))) := by
  rcases Script.parseJson_like (a := s.view) (b := s'.view) hd.left.grounded hd.right.grounded
    hd.left.bounded hd.right.bounded us with ⟨⟨v, g⟩, ⟨v', g'⟩, hv, hv', hmade⟩ | hraise
  · cases hmade with
    | plain hprim e e' =>
      rw [perform_script hv [], perform_script hv' []]
      have h : P.To s (s.withHeap g []) := to_extends hd.left e (by simp)
      have h' : P.To s' (s'.withHeap g' []) := to_extends hd.right e' (by simp)
      exact .value h h' ⟨hd.extends h h' e e', .plain hprim⟩
    | @object g g' o o' n e e' hlike =>
      -- the outermost objects are still being made, what they hold is not
      rw [perform_script hv [g.objects.size], perform_script hv' [g'.objects.size]]
      have e₁ := e.trans (.addObject g o)
      have e₁' := e'.trans (.addObject g' o')
      have h : P.To s (s.withHeap (g.addObject o).2 [g.objects.size]) :=
        to_extends hd.left e₁ (new_addObject e o)
      have h' : P.To s' (s'.withHeap (g'.addObject o').2 [g'.objects.size]) :=
        to_extends hd.right e₁' (new_addObject e' o')
      have hlike' : Object.Like (Alike (s.withHeap (g.addObject o).2 [g.objects.size]).view
          (s'.withHeap (g'.addObject o').2 [g'.objects.size]).view n)
          ((g.addObject o).2.object g.objects.size)
          ((g'.addObject o').2.object g'.objects.size) := by
        rw [Heap.object_addObject_self, Heap.object_addObject_self]
        exact hlike.mono fun _ _ h => h.keeps (keeps_addObject o) (keeps_addObject o')
      refine .value h h' ⟨hd.extends h h' e₁ e₁', ?_⟩
      obtain ⟨_, _, hb, hb', -⟩ := hd.draft
      exact .object (owns_addObject e o hd.left) (owns_addObject e' o' hd.right)
        (Nat.ne_of_gt (Nat.lt_of_lt_of_le hb.owns.inside e.size))
        (Nat.ne_of_gt (Nat.lt_of_lt_of_le hb'.owns.inside e'.size)) hlike'
  · exact ends_raise hd.left hd.right (hraise _) (hraise _)

/-! ## Changing the exports -/

/-- Changing an object that is being made leaves the module object as it is, but for its exports. -/
theorem Bench.withExports (hs : P.Sound s) (hb : Bench s p m v) (u : Value) :
    Bench (s.withHeap (s.heap.withObject m ((s.heap.object m).put exportsKey (.plain u))) [])
      p m u := by
  have h := to_withObject hs hb.owns.making ((s.heap.object m).put exportsKey (.plain u))
  generalize ht : s.withHeap _ [] = t at h
  have hm : t.heap.object m = (s.heap.object m).put exportsKey (.plain u) := by
    rw [← ht]
    exact Heap.object_modifyObject_self _ hb.owns.inside
  have hown {k : Key} (hk : k ≠ exportsKey) : t.heap.own m k = s.heap.own m k := by
    rw [Heap.own, hm, Object.own_put_of_ne hk, Heap.own]
  refine ⟨h.owns hb.owns, ?_, ?_, (hown (by decide)).trans hb.filename,
    (hown (by decide)).trans hb.unmarked, ?_⟩
  · rw [hm]
    exact hb.kind
  · rw [Heap.own, hm]
    refine Object.own_put_of_writable (v := v) ?_
    rw [show (s.heap.object m).own exportsKey = some (.plain v) from hb.exports]
    rfl
  · obtain ⟨r, hr, hlt, hmine, hkind⟩ := hb.require
    exact ⟨r, (hown (by decide)).trans hr, Nat.lt_of_lt_of_le hlt h.size, h.not_mine hlt hmine,
      (h.object r hlt hmine).symm ▸ hkind⟩

theorem perform_setExports (hb : Bench s p m v) (u : Value) :
    s.host.perform f (Load.setExports homeRealm m u) =
      (.ok (), (s.withHeap (s.heap.withObject m
        ((s.heap.object m).put exportsKey (.plain u))) []).host) := by
  have hordinary : (s.heap.object m).Ordinary exportsKey :=
    .inl (by rw [Object.isArray, hb.kind])
  have hassign : Script.standardMachine.assign homeRealm true (.obj m) exportsKey u s.heap = _ :=
    Script.Machine.assign_own _ hb.exports hordinary
  rw [Heap.putOwn, Heap.modifyObject_eq] at hassign
  exact perform_script hassign []

/-- Replacing the exports of the module. -/
theorem ends_setExports (hd : P.Desk p m m' s s') (hv : Draft s s' m m' v v') :
    P.Ends s s' (fun t t' _ _ => P.Desk p m m' t t')
      (s.host.perform f (Load.setExports homeRealm m v))
      (s'.host.perform f' (Load.setExports homeRealm m' v')) := by
  obtain ⟨_, _, hb, hb', -⟩ := hd.draft
  rw [perform_setExports hb, perform_setExports hb']
  have h := to_withObject hd.left hb.owns.making ((s.heap.object m).put exportsKey (.plain v))
  have h' := to_withObject hd.right hb'.owns.making
    ((s'.heap.object m').put exportsKey (.plain v'))
  refine .value h h' ⟨h.sound, h'.sound, v, v', hb.withExports hd.left v,
    hb'.withExports hd.right v', ?_⟩
  refine hv.to h h' (fun r hr => ?_) fun r hr => ?_
  · cases hv with
    | plain hv => cases hr ▸ hv
    | object _ _ hne => exact Heap.object_modifyObject_of_ne _ (Value.obj.inj hr ▸ hne)
  · cases hv with
    | plain hv => cases hr ▸ hv
    | object _ _ _ hne => exact Heap.object_modifyObject_of_ne _ (Value.obj.inj hr ▸ hne)

/-- A script that changes the heap and then ends, or throws an error. -/
theorem ends_brief {Q : Site → Site → Unit → Unit → Prop} {x y y' : Eval Unit} {g g' : Heap}
    (hx : Script.Brief homeRealm x) (h : P.To s (s.withHeap g []))
    (h' : P.To s' (s'.withHeap g' [])) (hy : y s.heap = x g) (hy' : y' s'.heap = x g')
    (hq : Q (s.withHeap g []) (s'.withHeap g' []) () ()) :
    P.Ends s s' Q (s.host.perform f (Load.script y)) (s'.host.perform f' (Load.script y')) := by
  rcases hx with rfl | ⟨kind, text, rfl⟩
  · rw [perform_script hy [], perform_script hy' []]
    exact .value h h' hq
  · obtain ⟨k, hk, e, hr⟩ := raise_done Unit homeRealm kind text g
    obtain ⟨k', hk', e', hr'⟩ := raise_done Unit homeRealm kind text g'
    rw [perform_script (hy.trans hk) [], perform_script (hy'.trans hk') []]
    exact .failed _ (h.trans (to_extends h.sound e (by simp)))
      (h'.trans (to_extends h'.sound e' (by simp))) ⟨_, _, rfl, hr, rfl⟩ ⟨_, _, rfl, hr', rfl⟩

theorem perform_exports (hb : Bench s p m v) :
    s.host.perform f (Load.exports homeRealm m) = (.ok v, s.host) :=
  Host.perform_of_done (exports_of_holds ⟨true, true, true, hb.exports⟩)

/-- Setting a member of the exports. -/
theorem ends_put (hd : P.Desk p m m' s s') (name : String) (hv : s.view.Like s'.view v v') :
    P.Ends s s' (fun t t' _ _ => P.Desk p m m' t t')
      (s.host.perform f (ModuleStep.put homeRealm m name v))
      (s'.host.perform f' (ModuleStep.put homeRealm m' name v')) := by
  obtain ⟨w, w', hb, hb', hdraft⟩ := hd.draft
  rw [ModuleStep.put, ModuleStep.put, Host.perform_bind, Host.perform_bind, perform_exports hb,
    perform_exports hb']
  cases hdraft with
  | plain hw =>
    cases w with
    | obj r => cases hw
    | _ => exact .stopped hd.left hd.right rfl rfl
  | @object r r' n ho ho' hne hne' hlike =>
    obtain ⟨n', hn⟩ := hv
    obtain ⟨x, q, q', hx, hq, hassign, hassign'⟩ := Script.assign_like homeRealm
      hd.left.grounded hd.right.grounded ho.view ho'.view
      (hlike.mono fun _ _ h => h.mono (Nat.le_max_left n n')) (Script.key name)
      (hn.mono (Nat.le_max_right n n'))
    have h := to_withObject hd.left ho.making q
    have h' := to_withObject hd.right ho'.making q'
    refine ends_brief hx h h' hassign hassign' ⟨h.sound, h'.sound, _, _,
      hb.to h (Heap.object_modifyObject_of_ne _ hne.symm),
      hb'.to h' (Heap.object_modifyObject_of_ne _ hne'.symm),
      .object (n := max n n') (h.owns ho) (h'.owns ho') hne hne' ?_⟩
    have hself : (s.heap.withObject r q).object r = q := Heap.object_modifyObject_self _ ho.inside
    have hself' : (s'.heap.withObject r' q').object r' = q' :=
      Heap.object_modifyObject_self _ ho'.inside
    change Object.Like _ ((s.heap.withObject r q).object r) ((s'.heap.withObject r' q').object r')
    rw [hself, hself']
    exact hq.mono fun _ _ hu => hu.keeps h.keeps h'.keeps

/-! ## Asking for other modules -/

/-- What is asked for has been answered as it is answered first: with a value that is alike to one
in another heap, or with an error object that has a message. -/
inductive Answered (t : Site) : Except String (Value × Heap) → Except Value Value → Prop
  | value {v u : Value} {g : Heap} : t.view.Like ⟨g, []⟩ v u → Answered t (.ok (u, g)) (.ok v)
  | thrown {r : Ref} {text : String} : t.heap.Reports r text →
      Answered t (.error text) (.error (.obj r))

/-- A requirement is answered so from all hosts in which the loads of certain paths are in
progress. An answer adds to the heap and leaves alone what is being made. -/
def Answers (P : Project) (f : Host.Answerer) (busy : List Path) (q : Requirement)
    (first : Except String (Value × Heap)) : Prop :=
  ∀ s, P.Sound s → s.busy = busy → ∃ t, P.To s t ∧ s.heap.Extends t.heap ∧
    (f q s.host).2 = t.host ∧ Answered t first (f q s.host).1

/-- The `require` of a module asks for what it is called with. -/
theorem perform_ask (hb : Bench s p m v) (specifier : String) :
    s.host.perform f (ModuleStep.ask homeRealm m specifier) =
      ((f ⟨specifier, p.parent.getD "", homeRealm⟩ s.host).1.mapError .thrown,
        (f ⟨specifier, p.parent.getD "", homeRealm⟩ s.host).2) := by
  obtain ⟨r, hr, -, -, hkind⟩ := hb.require
  rw [Host.perform_eq_resume, ModuleStep.ask_eq hr hkind]
  rfl

/-- Copies of values that are alike are alike. -/
theorem ends_copy (hd : P.Desk p m m' s s') (hv : s.view.Like s'.view v v') :
    P.Ends s s' (fun t t' v v' => P.Desk p m m' t t' ∧ t.view.Like t'.view v v')
      (s.host.perform f (ModuleStep.copy homeRealm v))
      (s'.host.perform f' (ModuleStep.copy homeRealm v')) := by
  obtain ⟨n, hn⟩ := hv
  have hshown := Script.documentOf_like Script.standardMachine homeRealm hd.left.grounded
    hd.right.grounded hn
  unfold ModuleStep.copy
  cases hshown with
  | value d hd₁ hd₂ =>
    cases d with
    | some d => exact ends_read hd (Eval.bind_of_done hd₁) (Eval.bind_of_done hd₂)
    | none =>
      rw [perform_script ((Eval.bind_of_done hd₁).trans rfl) [],
        perform_script ((Eval.bind_of_done hd₂).trans rfl) []]
      exact .still hd.left hd.right ⟨hd, 0, rfl, rfl⟩
  | overflow hd₁ hd₂ =>
    rw [perform_script (Eval.bind_of_stopped hd₁) [], perform_script (Eval.bind_of_stopped hd₂) []]
    exact .stopped hd.left hd.right rfl rfl

section Asking

variable {specifier : String} {first : Except String (Value × Heap)}
  (hd : P.Desk p m m' s s')
  (ha : P.Answers f s.busy ⟨specifier, p.parent.getD "", homeRealm⟩ first)
  (ha' : P.Answers f' s'.busy ⟨specifier, p.parent.getD "", homeRealm⟩ first)
include hd ha ha'

/-- However a requirement is answered, what is being filled is left as it is, and the answers are
values that are alike or failures that leave the same error. -/
theorem asked : ∃ t t', P.To s t ∧ P.To s' t' ∧ P.Desk p m m' t t' ∧
    ((∃ v v', s.host.perform f (ModuleStep.ask homeRealm m specifier) = (.ok v, t.host) ∧
        s'.host.perform f' (ModuleStep.ask homeRealm m' specifier) = (.ok v', t'.host) ∧
        t.view.Like t'.view v v') ∨
      ∃ e e' err, s.host.perform f (ModuleStep.ask homeRealm m specifier) = (.error e, t.host) ∧
        s'.host.perform f' (ModuleStep.ask homeRealm m' specifier) = (.error e', t'.host) ∧
        e.Leaves t.heap err ∧ e'.Leaves t'.heap err) := by
  obtain ⟨_, _, hb, hb', -⟩ := hd.draft
  obtain ⟨t, h, e, hhost, hanswer⟩ := ha s hd.left rfl
  obtain ⟨t', h', e', hhost', hanswer'⟩ := ha' s' hd.right rfl
  refine ⟨t, t', h, h', hd.extends h h' e e', ?_⟩
  rw [perform_ask hb, perform_ask hb', hhost, hhost']
  generalize (f _ s.host).1 = r, (f' _ s'.host).1 = r' at hanswer hanswer'
  cases hanswer with
  | value hv =>
    cases hanswer' with
    | value hv' =>
      obtain ⟨n, hv⟩ := hv
      obtain ⟨_, hv'⟩ := hv'
      exact .inl ⟨_, _, rfl, rfl, n, hv.of_common hv'⟩
  | thrown hr =>
    cases hanswer' with
    | thrown hr' => exact .inr ⟨_, _, _, rfl, rfl, ⟨_, _, rfl, hr, rfl⟩, ⟨_, _, rfl, hr', rfl⟩⟩

theorem ends_ask : P.Ends s s' (fun t t' v v' => P.Desk p m m' t t' ∧ t.view.Like t'.view v v')
    (s.host.perform f (ModuleStep.ask homeRealm m specifier))
    (s'.host.perform f' (ModuleStep.ask homeRealm m' specifier)) := by
  obtain ⟨t, t', h, h', hdesk, ⟨v, v', hv, hv', hlike⟩ | ⟨e, e', err, he, he', hl, hl'⟩⟩ :=
    asked hd ha ha'
  · rw [hv, hv']
    exact .value h h' ⟨hdesk, hlike⟩
  · rw [he, he']
    exact .failed err h h' hl hl'

/-- How asking for a module ends is told by the same text. -/
theorem ends_try (name : String) : P.Ends s s' (fun t t' _ _ => P.Desk p m m' t t')
    (s.host.perform f (ModuleStep.run homeRealm m (.try specifier name)))
    (s'.host.perform f' (ModuleStep.run homeRealm m' (.try specifier name))) := by
  obtain ⟨t, t', h, h', hdesk, hends⟩ := asked hd ha ha'
  have hput (text : String) : P.Ends s s' (fun t t' _ _ => P.Desk p m m' t t')
      (t.host.perform f (ModuleStep.put homeRealm m name (.text text)))
      (t'.host.perform f' (ModuleStep.put homeRealm m' name (.text text))) :=
    (ends_put hdesk name ⟨0, rfl, rfl⟩).lead h h'
  simp only [ModuleStep.run]
  rw [Host.perform_bind, Host.perform_bind, Host.perform_outcome, Host.perform_outcome]
  rcases hends with ⟨v, v', hv, hv', -⟩ | ⟨e, e', err, he, he', hl, hl'⟩
  · rw [hv, hv']
    exact hput "ok"
  · rw [he, he']
    have hcaught {t : Site} {f : Host.Answerer} {e : Failure} (hl : e.Leaves t.heap err) :
        t.host.perform f (Load.caught homeRealm e) = (.ok err, t.host) :=
      Host.perform_of_done (Load.caught_of_leaves homeRealm hl)
    dsimp only
    rw [Host.perform_bind, Host.perform_bind, hcaught hl, hcaught hl']
    exact hput err.message

end Asking

/-! ## Running the steps of a module -/

/-- What is asked for is answered in two hosts as it is answered first. -/
def Met (P : Project) (f f' : Host.Answerer) (busy busy' : List Path) (q : Requirement) : Prop :=
  ∃ first, P.Answers f busy q first ∧ P.Answers f' busy' q first

/-- A step of a module changes its exports alike in two hosts, or fails with the same error. -/
theorem ends_run (hd : P.Desk p m m' s s') {step : ModuleStep} (hown : step.Own)
    (hmet : ∀ specifier ∈ step.asked,
      P.Met f f' s.busy s'.busy ⟨specifier, p.parent.getD "", homeRealm⟩) :
    P.Ends s s' (fun t t' _ _ => P.Desk p m m' t t')
      (s.host.perform f (step.run homeRealm m)) (s'.host.perform f' (step.run homeRealm m')) := by
  cases hown with
  | set name value =>
    refine (ends_read hd rfl rfl).bind fun t t' v v' _ _ h => ?_
    exact ends_put h.1 name h.2
  | replace value =>
    refine (ends_readDraft hd _).bind fun t t' v v' _ _ h => ?_
    exact ends_setExports h.1 h.2
  | require specifier name =>
    obtain ⟨first, ha, ha'⟩ := hmet specifier List.mem_cons_self
    refine (ends_ask hd ha ha').bind fun t t' v v' _ _ h => ?_
    exact ends_put h.1 name h.2
  | snapshot specifier name =>
    obtain ⟨first, ha, ha'⟩ := hmet specifier List.mem_cons_self
    refine (ends_ask hd ha ha').bind fun t t' v v' _ _ h => ?_
    refine (ends_copy h.1 h.2).bind fun t t' v v' _ _ h => ?_
    exact ends_put h.1 name h.2
  | «try» specifier name =>
    obtain ⟨first, ha, ha'⟩ := hmet specifier List.mem_cons_self
    exact ends_try hd ha ha' name
  | throw message =>
    obtain ⟨g, hg, e, hr⟩ := hostError_done homeRealm message s.heap
    obtain ⟨g', hg', e', hr'⟩ := hostError_done homeRealm message s'.heap
    simp only [ModuleStep.run]
    rw [perform_script ((Eval.bind_of_done hg).trans rfl) [],
      perform_script ((Eval.bind_of_done hg').trans rfl) []]
    exact .failed _ (to_extends hd.left e (by simp)) (to_extends hd.right e' (by simp))
      ⟨_, _, rfl, hr, rfl⟩ ⟨_, _, rfl, hr', rfl⟩

/-- So do all steps of a module, one after another. -/
theorem ends_runAll {steps : List ModuleStep} (hd : P.Desk p m m' s s')
    (hown : ∀ step ∈ steps, step.Own) (hmet : ∀ step ∈ steps, ∀ specifier ∈ step.asked,
      P.Met f f' s.busy s'.busy ⟨specifier, p.parent.getD "", homeRealm⟩) :
    P.Ends s s' (fun t t' _ _ => P.Desk p m m' t t')
      (s.host.perform f (ModuleStep.runAll homeRealm m steps))
      (s'.host.perform f' (ModuleStep.runAll homeRealm m' steps)) := by
  induction steps generalizing s s' with
  | nil => exact .still hd.left hd.right hd
  | cons step rest ih =>
    refine (ends_run hd (hown step List.mem_cons_self) (hmet step List.mem_cons_self)).bind
      fun t t' _ _ h h' hdesk => ih hdesk (fun step hs => hown step (List.mem_cons_of_mem _ hs)) ?_
    rw [h.busy, h'.busy]
    exact fun step hs => hmet step (List.mem_cons_of_mem _ hs)

end Project
end LoadHook
