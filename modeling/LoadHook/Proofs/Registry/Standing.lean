import LoadHook.Proofs.Module.Failure
import LoadHook.Proofs.Registry.Unwinding
import LoadHook.Proofs.Script.Assigning
import LoadHook.Proofs.Script.Reviving

/-!
# What loaded modules stand for

A host without modules is the measure for all others: what a module is, is what its first load in
that host comes to. In another host a registered module stands for that as long as its exports show
the same data, whichever objects they are made of. The modules whose loads are in progress are left
out, and so are the objects that still are being made for them.
-/
namespace LoadHook

open Script (Value RealmRef Ref Heap Eval Key View Alike ground)
open Host (homeRealm)

/-! ## Running steps of a load one after another -/

namespace Host

variable {α β : Type} {f : Answerer} {h : Host}

/-- The first step is run to its end, and then the second one if the first has a value. -/
theorem perform_bind (f : Answerer) (x : Load α) (k : α → Load β) (h : Host) :
    h.perform f (x >>= k) =
      match h.perform f x with
      | (.ok a, g) => g.perform f (k a)
      | (.error e, g) => (.error e, g) := by
  change h.perform f (Load.bind x k) = _
  simp only [perform, Load.bind, Dialogue.run_bind]
  generalize (x h.workspace).run _ h.registry = ran
  obtain ⟨⟨r, w⟩, g⟩ := ran
  cases r <;> rfl

/-- The outcome of a step is a value, whatever it is. -/
theorem perform_outcome (f : Answerer) (x : Load α) (h : Host) :
    h.perform f (Load.outcome x) = (.ok (h.perform f x).1, (h.perform f x).2) := by
  simp only [perform, Load.outcome, Dialogue.run_bind]
  rfl

end Host

/-! ## Hosts in the midst of loads -/

/-- A host in the midst of a load: the objects that are being made for the load itself and for the
loads around it, and the paths whose loads are in progress. -/
structure Site where
  host : Host
  mine : List Ref
  outer : List Ref
  busy : List Path

namespace Site

/-- The heap of a host. -/
def heap (s : Site) : Heap := s.host.workspace.heap

/-- The heap from outside of the objects that are being made. -/
def view (s : Site) : View := ⟨s.heap, s.mine ++ s.outer⟩

/-- The host with another heap in which more objects are being made. -/
def withHeap (s : Site) (h : Heap) (new : List Ref) : Site :=
  { s with
    host := ⟨s.host.registry, { s.host.workspace with heap := h }⟩
    mine := new ++ s.mine }

/-- An object is one of those that are being made for the load itself. -/
structure Owns (s : Site) (r : Ref) : Prop where
  above : ground.objects.size ≤ r
  inside : r < s.heap.objects.size
  making : r ∈ s.mine

theorem Owns.view {s : Site} {r : Ref} (hr : s.Owns r) : s.view.Owns r :=
  ⟨hr.above, hr.inside, List.mem_append_left _ hr.making⟩

end Site

/-- Modules in the files of a host that has loaded none of them, and how many of them may at most
be waiting for one another below each. -/
structure Project where
  host : Host
  member : Path → Prop
  rank : Path → Nat

namespace Project

variable (P : Project) {s t u s' t' : Site} {p : Path} {m : Ref} {h : Heap} {new : List Ref}

/-- What the first load of a module comes to, with depth enough for what it asks for: each module
that waits takes two levels, one for its load and one for the answer. -/
def first (p : Path) : Except Failure Ref × Host :=
  Host.loadWithin (2 * P.rank p + 2) homeRealm p P.host

/-- A module object has exports that show what the exports of the module show when it is loaded
first. -/
structure Stands (a : View) (p : Path) (m : Ref) : Prop where
  made : m ∉ a.mine
  like : ∃ v m₀ g u, a.heap.own m exportsKey = some (.plain v) ∧ P.first p = (.ok m₀, g) ∧
    g.workspace.heap.own m₀ exportsKey = some (.plain u) ∧ a.Like ⟨g.workspace.heap, []⟩ v u

/-- All modules that are registered stand for what they are, unless their loads are in progress. -/
structure Sound (s : Site) : Prop where
  grounded : ground.Extends s.heap
  bounded : s.view.Bounded
  world : s.host.workspace.world = P.host.workspace.world
  handlers : s.host.registry.handlers = P.host.registry.handlers
  stands : ∀ p m, P.member p → p ∉ s.busy → s.host.registry.modules.get? p = some m →
    P.Stands s.view p m

/-- What happens to a host while a module is being filled: only objects that are being made for it
are changed, and what is registered and not being loaded stands for what it is. -/
structure To (s t : Site) : Prop where
  size : s.heap.objects.size ≤ t.heap.objects.size
  object : ∀ r < s.heap.objects.size, r ∉ s.mine → t.heap.object r = s.heap.object r
  mine : ∀ r ∈ s.mine, r ∈ t.mine
  fresh : ∀ r ∈ t.mine, r ∈ s.mine ∨ s.heap.objects.size ≤ r
  outer : t.outer = s.outer
  busy : t.busy = s.busy
  kept : ∀ p ∈ s.busy, t.host.registry.modules.get? p = s.host.registry.modules.get? p
  sound : P.Sound t

variable {P}

theorem To.refl (hs : P.Sound s) : P.To s s :=
  ⟨Nat.le_refl _, fun _ _ _ => rfl, fun _ => id, fun _ => .inl, rfl, rfl, fun _ _ => rfl, hs⟩

/-- What was in the heap and was not being made is not being made later. -/
theorem To.not_mine {r : Ref} (h : P.To s t) (hr : r < s.heap.objects.size) (hmine : r ∉ s.mine) :
    r ∉ t.mine := fun hr' => (h.fresh r hr').elim hmine fun hle => Nat.not_lt_of_le hle hr

theorem To.trans (h : P.To s t) (k : P.To t u) : P.To s u where
  size := Nat.le_trans h.size k.size
  object r hr hmine := by
    rw [k.object r (Nat.lt_of_lt_of_le hr h.size) (h.not_mine hr hmine), h.object r hr hmine]
  mine r hr := k.mine r (h.mine r hr)
  fresh r hr := (k.fresh r hr).elim (h.fresh r) fun hle => .inr (Nat.le_trans h.size hle)
  outer := k.outer.trans h.outer
  busy := k.busy.trans h.busy
  kept p hp := (k.kept p (h.busy ▸ hp)).trans (h.kept p hp)
  sound := k.sound

/-- Where objects that are in the heap and not being made stay so and stay as they are. -/
theorem keeps_of_not_mine (hsize : s.heap.objects.size ≤ t.heap.objects.size)
    (hobject : ∀ r < s.heap.objects.size, r ∉ s.mine → t.heap.object r = s.heap.object r)
    (hmine : ∀ r < s.heap.objects.size, r ∉ s.mine → r ∉ t.mine) (houter : t.outer = s.outer) :
    s.view.Keeps t.view := by
  intro r hr
  have hnot : r ∉ s.mine ∧ r ∉ s.outer := by simpa [Site.view] using hr.made
  refine ⟨⟨hr.above, Nat.lt_of_lt_of_le hr.inside hsize, ?_⟩, hobject r hr.inside hnot.1⟩
  simpa [Site.view, houter] using ⟨hmine r hr.inside hnot.1, hnot.2⟩

/-- What is no longer being made stays as it is. -/
theorem To.keeps (h : P.To s t) : s.view.Keeps t.view :=
  keeps_of_not_mine h.size h.object (fun _ => h.not_mine) h.outer

theorem To.owns {r : Ref} (h : P.To s t) (hr : s.Owns r) : t.Owns r :=
  ⟨hr.above, Nat.lt_of_lt_of_le hr.inside h.size, h.mine r hr.making⟩

theorem Stands.keeps {a b : View} (hm : P.Stands a p m) (hab : a.Keeps b) (hmine : m ∉ b.mine)
    (hobject : b.heap.object m = a.heap.object m) : P.Stands b p m := by
  obtain ⟨-, v, m₀, g, u, hv, hfirst, hu, hlike⟩ := hm
  refine ⟨hmine, v, m₀, g, u, ?_, hfirst, hu, hlike.keeps hab (.refl _)⟩
  rw [Heap.own, hobject]
  exact hv

theorem Stands.lt_size {a : View} (hm : P.Stands a p m) : m < a.heap.objects.size := by
  obtain ⟨-, v, m₀, g, u, hv, -⟩ := hm
  exact Heap.lt_size_of_own hv

/-- The heap may be changed where objects are being made, and objects may be added to it. -/
theorem to_withHeap (hs : P.Sound s) (hsize : s.heap.objects.size ≤ h.objects.size)
    (hobject : ∀ r < s.heap.objects.size, r ∉ s.mine → h.object r = s.heap.object r)
    (hrealms : h.realms = s.heap.realms) (hscopes : h.scopes = s.heap.scopes)
    (hnew : ∀ r ∈ new, s.heap.objects.size ≤ r ∧ r < h.objects.size) :
    P.To s (s.withHeap h new) := by
  have hfresh : ∀ r ∈ new ++ s.mine, r ∈ s.mine ∨ s.heap.objects.size ≤ r := fun r hr =>
    (List.mem_append.mp hr).elim (fun hr => .inr (hnew r hr).1) .inl
  have hnot : ∀ r < s.heap.objects.size, r ∉ s.mine → r ∉ new ++ s.mine := fun r hlt hmine hr =>
    (hfresh r hr).elim hmine fun hle => Nat.not_lt_of_le hle hlt
  have hkeeps : s.view.Keeps (s.withHeap h new).view := keeps_of_not_mine hsize hobject hnot rfl
  refine ⟨hsize, hobject, fun r hr => List.mem_append_right new hr, hfresh, rfl, rfl,
    fun _ _ => rfl, ?_⟩
  refine ⟨⟨Nat.le_trans hs.grounded.size hsize, fun r hr => ?_, hrealms.trans hs.grounded.realms,
    hscopes.trans hs.grounded.scopes⟩, fun r hr => ?_, hs.world,
    hs.handlers, fun p m hp hbusy hm => ?_⟩
  · have hmine : r ∉ s.mine := fun hmine =>
      Nat.not_lt_of_le (hs.bounded r (List.mem_append_left _ hmine)).1 hr
    exact (hobject r (Nat.lt_of_lt_of_le hr hs.grounded.size) hmine).trans (hs.grounded.object r hr)
  · simp only [Site.view, Site.withHeap, List.append_assoc] at hr
    rcases List.mem_append.mp hr with hr | hr
    · exact ⟨Nat.le_trans hs.grounded.size (hnew r hr).1, (hnew r hr).2⟩
    · exact ⟨(hs.bounded r hr).1, Nat.lt_of_lt_of_le (hs.bounded r hr).2 hsize⟩
  · have hstands := hs.stands p m hp hbusy hm
    have hmade : m ∉ s.mine ∧ m ∉ s.outer := by simpa [Site.view] using hstands.made
    refine hstands.keeps hkeeps ?_ (hobject m hstands.lt_size hmade.1)
    exact fun hr => (List.mem_append.mp hr).elim (hnot m hstands.lt_size hmade.1) hmade.2

/-- Objects may be added to the heap, some of which are still being made. -/
theorem to_extends (hs : P.Sound s) (e : s.heap.Extends h)
    (hnew : ∀ r ∈ new, s.heap.objects.size ≤ r ∧ r < h.objects.size) :
    P.To s (s.withHeap h new) :=
  to_withHeap hs e.size (fun r hr _ => e.object r hr) e.realms e.scopes hnew

/-- An object that is being made may be changed. -/
theorem to_withObject {r : Ref} (hs : P.Sound s) (hr : r ∈ s.mine) (o : Script.Object) :
    P.To s (s.withHeap (s.heap.withObject r o) []) :=
  to_withHeap hs (Nat.le_of_eq (Heap.size_modifyObject _).symm)
    (fun _ _ hmine => Heap.object_modifyObject_of_ne _ fun e => hmine (e ▸ hr)) rfl rfl
    (by simp)

/-! ## Two hosts side by side -/

/-- Steps of a load that are run in two hosts end alike: with values, or in failures that leave the
same error. -/
inductive Ends (P : Project) {α β : Type} (s s' : Site) (Q : Site → Site → α → β → Prop) :
    Except Failure α × Host → Except Failure β × Host → Prop
  | value {t t' : Site} {a : α} {b : β} : P.To s t → P.To s' t' → Q t t' a b →
      Ends P s s' Q (.ok a, t.host) (.ok b, t'.host)
  | failed {t t' : Site} {e e' : Failure} (err : LoadError) : P.To s t → P.To s' t' →
      e.Leaves t.heap err → e'.Leaves t'.heap err →
      Ends P s s' Q (.error e, t.host) (.error e', t'.host)

namespace Ends

variable {α β γ δ : Type} {Q : Site → Site → α → β → Prop} {R : Site → Site → γ → δ → Prop}
  {f f' : Host.Answerer}

/-- A step that changes nothing. -/
theorem still {a : α} {b : β} (hs : P.Sound s) (hs' : P.Sound s') (hq : Q s s' a b) :
    P.Ends s s' Q (.ok a, s.host) (.ok b, s'.host) :=
  .value (.refl hs) (.refl hs') hq

/-- A step that fails before it changes anything. -/
theorem stopped {e e' : Failure} {err : LoadError} (hs : P.Sound s) (hs' : P.Sound s')
    (he : e.Leaves s.heap err) (he' : e'.Leaves s'.heap err) :
    P.Ends s s' Q (.error e, s.host) (.error e', s'.host) :=
  .failed err (.refl hs) (.refl hs') he he'

theorem lead {x : Except Failure α × Host} {x' : Except Failure β × Host} (hx : P.Ends t t' Q x x')
    (h : P.To s t) (h' : P.To s' t') : P.Ends s s' Q x x' := by
  cases hx with
  | value k k' hq => exact .value (h.trans k) (h'.trans k') hq
  | failed err k k' he he' => exact .failed err (h.trans k) (h'.trans k') he he'

/-- One step after another. -/
theorem bind {x : Load α} {x' : Load β} {k : α → Load γ} {k' : β → Load δ}
    (hx : P.Ends s s' Q (s.host.perform f x) (s'.host.perform f' x'))
    (hk : ∀ t t' a b, P.To s t → P.To s' t' → Q t t' a b →
      P.Ends t t' R (t.host.perform f (k a)) (t'.host.perform f' (k' b))) :
    P.Ends s s' R (s.host.perform f (x >>= k)) (s'.host.perform f' (x' >>= k')) := by
  rw [Host.perform_bind, Host.perform_bind]
  generalize s.host.perform f x = r, s'.host.perform f' x' = r' at hx
  cases hx with
  | value h h' hq => exact (hk _ _ _ _ h h' hq).lead h h'
  | failed err h h' he he' => exact .failed err h h' he he'

end Ends

end Project
end LoadHook
