import LoadHook.Proofs.Path.Map
import LoadHook.Proofs.Registry.Visits

/-!
# The registry at rest

As long as code leaves the marks of module objects alone, every registered module has been
loaded to its end, or its load is in progress. So nothing half loaded is registered whenever no
load is in progress. A load keeps what was registered before it, adds only what was loaded to
its end meanwhile, and leaves its path unregistered if it fails.
-/
namespace LoadHook

open Script (Value RealmRef Ref)
open Journal (inProgress completions Every)

/-- A registered module has been loaded to its end and is marked as loaded, unless its load is
in progress. -/
def Host.Held (open_ : List Path) (done : List (Path × Ref)) (h : Host) : Prop :=
  ∀ p m, h.registry.modules.get? p = some m →
    (∃ q ∈ open_, q.same p) ∨
      (∃ q, q.same p ∧ (q, m) ∈ done) ∧ h.workspace.heap.Marked m true

/-- The registry is held at a moment, its past being known. -/
def Settled (past : Journal) (x : Moment) : Prop :=
  x.host.Held (inProgress (past ++ [x])) (completions (past ++ [x]))

/-- What handlers and scripts must not do to the host: between two requirements they leave the
marks of registered modules alone, and where the object of a module is made the names of a
module mean nothing special. -/
structure Tame (j : Journal) : Prop where
  spares : ∀ x ∈ j, ∀ h, x.what = .ran .code h → ∀ p m, h.registry.modules.get? p = some m →
    x.host.workspace.heap.own m loadedKey = h.workspace.heap.own m loadedKey
  plain : j.Plain

/-- What a load does to the registry. -/
structure Call.Sound (c : Call) : Prop where
  kept : ∀ p m, c.before.registry.modules.get? p = some m →
    c.after.registry.modules.get? p = some m
  added : ∀ p m, c.after.registry.modules.get? p = some m →
    c.before.registry.modules.get? p = some m ∨ ∃ q, q.same p ∧ (q, m) ∈ c.completions
  failed : ∀ e, c.result = .error e → c.after.registry.modules.get? c.path = none

/-- What a piece of a run does to the registry and the marks of the modules in it. -/
structure Frame (h : Host) (j : Journal) (h' : Host) : Prop where
  kept : ∀ p m, h.registry.modules.get? p = some m → h'.registry.modules.get? p = some m
  marks : ∀ p m b, h.registry.modules.get? p = some m → h.workspace.heap.Marked m b →
    h'.workspace.heap.Marked m b
  added : ∀ p m, h'.registry.modules.get? p = some m → h.registry.modules.get? p = some m ∨
    (∃ q, q.same p ∧ (q, m) ∈ completions j) ∧ h'.workspace.heap.Marked m true

theorem Tame.mono {j k : Journal} (ht : Tame k) (hjk : ∀ x ∈ j, x ∈ k) : Tame j where
  spares x hx := ht.spares x (hjk x hx)
  plain := ht.plain.mono hjk

namespace Host.Held

variable {h h' : Host} {open_ open' : List Path} {done done' : List (Path × Ref)} {p : Path}
  {m : Ref} {j : Journal} {w : Workspace}

theorem mono (hh : h.Held open_ done) (ho : ∀ q ∈ open_, q ∈ open')
    (hd : ∀ e ∈ done, e ∈ done') : h.Held open' done' := by
  intro p m hm
  rcases hh p m hm with ⟨q, hq, hs⟩ | ⟨⟨q, hs, hq⟩, hmark⟩
  · exact .inl ⟨q, ho q hq, hs⟩
  · exact .inr ⟨⟨q, hs, hd _ hq⟩, hmark⟩

/-- What keeps the registered modules and adds only loaded ones keeps the registry held. -/
theorem frame (hh : h.Held open_ done) (hf : Frame h j h') :
    h'.Held open_ (done ++ completions j) := by
  intro p m hm
  rcases hf.added p m hm with hold | ⟨⟨q, hs, hq⟩, hmark⟩
  · rcases hh p m hold with hopen | ⟨⟨q, hs, hq⟩, hmark⟩
    · exact .inl hopen
    · exact .inr ⟨⟨q, hs, List.mem_append_left _ hq⟩, hf.marks p m true hold hmark⟩
  · exact .inr ⟨⟨q, hs, List.mem_append_right _ hq⟩, hmark⟩

/-- A module may be registered while its load is in progress. -/
theorem withModule (hh : h.Held open_ done) (hp : p ∈ open_) :
    (h.withModule p m).Held open_ done := by
  intro q n hn
  rcases PathMap.get?_insert_eq_some hn with ⟨hs, -⟩ | ⟨-, hold⟩
  · exact .inl ⟨p, hp, hs⟩
  · exact hh q n hold

theorem withoutModule (hh : h.Held open_ done) : (h.withoutModule p).Held open_ done :=
  fun q n hn => hh q n (PathMap.get?_erase_eq_some hn).2

theorem clear : h.clear.Held open_ done := by
  intro p m hm
  cases hm

/-- Marking one more module as loaded does not hurt. -/
theorem mark {b : Bool} (hh : h.Held open_ done) (hm : h.workspace.heap.Marked m b)
    (hw : w.heap = h.workspace.heap.mark m) : Host.Held open_ done ⟨h.registry, w⟩ := by
  intro p n hn
  rcases hh p n hn with hopen | ⟨hdone, hmark⟩
  · exact .inl hopen
  · refine .inr ⟨hdone, ?_⟩
    simp only [hw]
    by_cases he : n = m
    · rw [he]
      exact Script.Heap.marked_mark hm
    · exact Script.Heap.marked_mark_of_ne he hmark

end Host.Held

namespace Frame

variable {h h₁ h₂ : Host} {j k : Journal} {w : Workspace}

theorem refl (h : Host) (j : Journal) : Frame h j h := ⟨fun _ _ => id, fun _ _ _ _ => id,
  fun _ _ => .inl⟩

theorem trans (a : Frame h j h₁) (b : Frame h₁ k h₂) : Frame h (j ++ k) h₂ where
  kept p m hm := b.kept p m (a.kept p m hm)
  marks p m c hm hc := b.marks p m c (a.kept p m hm) (a.marks p m c hm hc)
  added p m hm := by
    rcases b.added p m hm with hm₁ | ⟨⟨q, hs, hq⟩, hmark⟩
    · rcases a.added p m hm₁ with hold | ⟨⟨q, hs, hq⟩, hmark⟩
      · exact .inl hold
      · exact .inr ⟨⟨q, hs, by simp [hq]⟩, b.marks p m true hm₁ hmark⟩
    · exact .inr ⟨⟨q, hs, by simp [hq]⟩, hmark⟩

/-- A stretch that leaves the marks of registered modules alone. -/
theorem of_spares (hw : ∀ p m, h.registry.modules.get? p = some m →
    w.heap.own m loadedKey = h.workspace.heap.own m loadedKey) : Frame h j ⟨h.registry, w⟩ where
  kept _ _ := id
  marks p m _ hm hb := (hw p m hm).trans hb
  added _ _ := .inl

theorem of_extends (hw : h.workspace.heap.Extends w.heap) : Frame h j ⟨h.registry, w⟩ where
  kept _ _ := id
  marks _ _ _ _ hb := hb.extends hw
  added _ _ := .inl

theorem congr (a : Frame h j h₁) (hjk : completions j = completions k) : Frame h k h₁ :=
  ⟨a.kept, a.marks, by rw [← hjk]; exact a.added⟩

end Frame

/-! ## One load -/

/-- The object of a module has been made and registered, and its handler has run: from then on
what is registered is framed. -/
structure Filled (p : Path) (m : Ref) (h : Host) (j : Journal) (h' : Host) : Prop where
  fresh : h.workspace.heap.objects.size ≤ m
  framed : ∃ w : Workspace, h.workspace.heap.Extends w.heap ∧ w.heap.Marked m false ∧
    Frame (Host.withModule ⟨h.registry, w⟩ p m) j h'

namespace Filled

variable {p q : Path} {m n : Ref} {h h' : Host} {j : Journal} {w : Workspace} {b : Bool}

/-- The module is registered and not marked as loaded yet. -/
theorem here (f : Filled p m h j h') :
    h'.registry.modules.get? p = some m ∧ h'.workspace.heap.Marked m false := by
  obtain ⟨w, -, hm, hf⟩ := f.framed
  have hp : (Host.withModule ⟨h.registry, w⟩ p m).registry.modules.get? p = some m :=
    PathMap.get?_insert_of_same (Path.same_refl p)
  exact ⟨hf.kept p m hp, hf.marks p m false hp hm⟩

/-- What was registered before is registered still, with its mark. -/
theorem kept (f : Filled p m h j h') (hp : h.registry.modules.get? p = none)
    (hq : h.registry.modules.get? q = some n) :
    h'.registry.modules.get? q = some n ∧
      (h.workspace.heap.Marked n b → h'.workspace.heap.Marked n b) := by
  obtain ⟨w, hw, -, hf⟩ := f.framed
  have hold : (Host.withModule ⟨h.registry, w⟩ p m).registry.modules.get? q = some n :=
    (PathMap.get?_insert_of_not_same (PathMap.not_same_of_get? hp hq)).trans hq
  exact ⟨hf.kept q n hold, fun hb => hf.marks q n b hold (hb.extends hw)⟩

theorem added (f : Filled p m h j h') (hq : h'.registry.modules.get? q = some n) :
    p.same q ∧ n = m ∨ h.registry.modules.get? q = some n ∨
      (∃ q', q'.same q ∧ (q', n) ∈ completions j) ∧ h'.workspace.heap.Marked n true := by
  obtain ⟨w, -, -, hf⟩ := f.framed
  rcases hf.added q n hq with hold | hnew
  · rcases PathMap.get?_insert_eq_some hold with hs | ⟨-, hold⟩
    · exact .inl hs
    · exact .inr (.inl hold)
  · exact .inr (.inr hnew)

/-- The registry is held while the load of the module is in progress. -/
theorem held {open_ : List Path} {done : List (Path × Ref)} (f : Filled p m h j h')
    (hp : h.registry.modules.get? p = none) (hh : h.Held open_ done) (ho : p ∈ open_) :
    h'.Held open_ (done ++ completions j) := by
  intro q n hq
  rcases f.added hq with ⟨hs, -⟩ | hold | ⟨⟨q', hs, hq'⟩, hn⟩
  · exact .inl ⟨p, ho, hs⟩
  · rcases hh q n hold with hopen | ⟨⟨q', hs, hq'⟩, hn⟩
    · exact .inl hopen
    · exact .inr ⟨⟨q', hs, List.mem_append_left _ hq'⟩, (f.kept hp hold).2 hn⟩
  · exact .inr ⟨⟨q', hs, List.mem_append_right _ hq'⟩, hn⟩

/-- Removing the module again leaves only what was there, and what was loaded meanwhile. -/
theorem dropped (f : Filled p m h j h') (hp : h.registry.modules.get? p = none) :
    Frame h j (h'.withoutModule p) where
  kept q n hq :=
    (PathMap.get?_erase_of_not_same (PathMap.not_same_of_get? hp hq)).trans
      (f.kept (b := true) hp hq).1
  marks _ _ _ hq := (f.kept hp hq).2
  added q n hq := by
    obtain ⟨hs, hq⟩ := PathMap.get?_erase_eq_some hq
    rcases f.added hq with ⟨hs', -⟩ | hrest
    · rw [hs'] at hs
      cases hs
    · exact hrest

/-- Marking the module as loaded ends its load. -/
theorem completed (f : Filled p m h j h') (hp : h.registry.modules.get? p = none)
    (hw : w.heap = h'.workspace.heap.mark m) {x : Moment} (hx : x.what = .completed p m) :
    Frame h (j ++ [x]) ⟨h'.registry, w⟩ where
  kept q n hq := (f.kept (b := true) hp hq).1
  marks q n b hq hb := by
    have hne : n ≠ m := Nat.ne_of_lt (Nat.lt_of_lt_of_le hb.lt_size f.fresh)
    simp only [hw]
    exact Script.Heap.marked_mark_of_ne hne ((f.kept hp hq).2 hb)
  added q n hq := by
    have hdone : (p, m) ∈ completions (j ++ [x]) := by simp [completions, hx]
    have hmark : w.heap.Marked m true := by rw [hw]; exact Script.Heap.marked_mark f.here.2
    rcases f.added hq with ⟨hs, rfl⟩ | hold | ⟨⟨q', hs, hq'⟩, hn⟩
    · exact .inr ⟨⟨p, hs, hdone⟩, hmark⟩
    · exact .inl hold
    · refine .inr ⟨⟨q', hs, by simp [hq']⟩, ?_⟩
      by_cases he : n = m
      · rw [he]
        exact hmark
      · simp only [hw]
        exact Script.Heap.marked_mark_of_ne he hn

end Filled

/-! ## A whole run -/

/-- Every moment of a piece of a run is settled, and every load in it is sound. -/
structure Keeps (past j : Journal) : Prop where
  settled : Every Settled past j
  sound : ∀ x ∈ j, ∀ c, x.what = .returned c → c.Sound

namespace Keeps

variable {past j k : Journal} {x : Moment} {h : Host}

theorem append (a : Keeps past j) (b : Keeps (past ++ j) k) : Keeps past (j ++ k) where
  settled := Journal.every_append.mpr ⟨a.settled, b.settled⟩
  sound x hx := by
    rcases List.mem_append.mp hx with hx | hx
    · exact a.sound x hx
    · exact b.sound x hx

theorem of_held (hx : ∀ c, x.what ≠ .returned c) (hh : Settled past x) : Keeps past [x] where
  settled := ⟨hh, trivial⟩
  sound y hy c hc := by
    rw [List.mem_singleton.mp hy] at hc
    exact absurd hc (hx c)

end Keeps

/-- What a piece of a run comes to, the registry being held where it begins. -/
def Comes : Course → Host → Journal → Host → Prop
  | .steps part, h, j, h' => part = .code → ∀ past, Tame j →
    h.Held (inProgress past) (completions past) → Keeps past j ∧ Frame h j h'
  | .filling realm p m, h, j, h' => ∀ past, Tame j →
    h.Held (inProgress past) (completions past) → p ∈ inProgress past →
    h.workspace.heap.PlainFor realm → Keeps past j ∧ Filled p m h j h'
  | .body realm p r, h, j, h' => ∀ past, Tame j →
    h.Held (inProgress past) (completions past) → p ∈ inProgress past →
    (h.registry.modules.get? p = none → h.workspace.heap.PlainFor realm) →
    Keeps past j ∧ Frame h j h' ∧ ∀ e, r = .error e → h'.registry.modules.get? p = none
  | .load _ _ _, h, j, h' => ∀ past, Tame j →
    h.Held (inProgress past) (completions past) → Keeps past j ∧ Frame h j h'

section Rules

open Recorded
open Journal (Balanced)

variable {f : Answerer} {realm : RealmRef} {p : Path} {m : Ref} {h h₁ h₂ : Host}
  {j k : Journal} {e : Failure} {r : Except Failure Ref}

theorem held_after {past : Journal} (hb : j.Balanced)
    (hh : h.Held (inProgress past) (completions past)) (hf : Frame h j h₁) :
    h₁.Held (inProgress (past ++ j)) (completions (past ++ j)) := by
  rw [hb.inProgress, Journal.completions_append]
  exact hh.frame hf

/-- A moment that begins and ends no load and frames what is registered. -/
theorem keeps_single {past : Journal} {x : Moment} (hb : Balanced [x])
    (hx : ∀ c, x.what ≠ .returned c) (hh : h.Held (inProgress past) (completions past))
    (hf : Frame h [x] x.host) : Keeps past [x] := .of_held hx (held_after hb hh hf)

theorem comes_filling (made : perform .making f (Host.newModule realm p) h = ⟨.ok m, h₁, j⟩)
    (ihk : Comes (.steps .code) (h₁.withModule p m) k h₂) :
    Comes (.filling realm p m) h (j ++ ⟨.dispatched p m, h₁.withModule p m⟩ :: k) h₂ := by
  intro past ht hh hp hplain
  obtain ⟨_, w, hrun, made'⟩ := newModule_furnished p hplain
  have hext := made'.old
  have hmark := made'.unmarked
  cases made'.fresh
  rw [perform_of_done hrun] at made
  cases made
  let x : Moment := ⟨.ran .making h, ⟨h.registry, w⟩⟩
  let y : Moment := ⟨.dispatched p (h.workspace.heap.objects.size + 1),
    Host.withModule ⟨h.registry, w⟩ p (h.workspace.heap.objects.size + 1)⟩
  have hx : Frame h [x] x.host := .of_extends hext
  have hh₁ : y.host.Held (inProgress (past ++ [x])) (completions (past ++ [x])) :=
    (held_after (fun _ => rfl) hh hx).withModule (by simpa [x, Journal.opened] using hp)
  have hy : Frame y.host [y] y.host := .refl _ _
  have kx : Keeps past [x] := keeps_single (fun _ => rfl) (fun _ => by simp [x]) hh hx
  have ky : Keeps (past ++ [x]) [y] := keeps_single (fun _ => rfl) (fun _ => by simp [y]) hh₁ hy
  obtain ⟨kk, hk⟩ := ihk rfl _ (ht.mono (by simp +contextual))
    (held_after (fun _ => rfl) hh₁ hy)
  exact ⟨kx.append (ky.append kk), Nat.le_succ _, w, hext, hmark,
    hk.congr (by simp [completions])⟩

theorem comes_failed (hp : h.registry.modules.get? p = none)
    (hj : Played (.filling realm p m) h j h₁)
    (ih : Comes (.filling realm p m) h j h₁) :
    Comes (.body realm p (.error e)) h (j ++ [⟨.dropped p, h₁.withoutModule p⟩])
      (h₁.withoutModule p) := by
  intro past ht hh hopen hplain
  obtain ⟨kj, filled⟩ := ih past (ht.mono (by simp +contextual)) hh hopen (hplain hp)
  have hf := filled.dropped hp
  have kdrop := keeps_single (x := ⟨.dropped p, h₁.withoutModule p⟩) (fun _ => rfl)
    (fun _ => by simp) (held_after hj.balanced hh hf) (.refl _ _)
  exact ⟨kj.append kdrop, hf.congr (by simp [completions]),
    fun _ _ => PathMap.get?_erase_of_same (Path.same_refl p)⟩

theorem comes_completed (hp : h.registry.modules.get? p = none)
    (hj : Played (.filling realm p m) h j h₁)
    (marked : perform .marking f (Load.setProperty realm m "loaded" (.bool true)) h₁ =
      ⟨.ok (), h₂, k⟩) (ih : Comes (.filling realm p m) h j h₁) :
    Comes (.body realm p (.ok m)) h (j ++ (k ++ [⟨.completed p m, h₂⟩])) h₂ := by
  intro past ht hh hopen hplain
  obtain ⟨kj, filled⟩ := ih past (ht.mono (by simp +contextual)) hh hopen (hplain hp)
  rw [perform_of_done (setLoaded_of_marked filled.here.2)] at marked
  cases marked
  let h₂ : Host := ⟨h₁.registry, { h₁.workspace with heap := h₁.workspace.heap.mark m }⟩
  let x : Moment := ⟨.ran .marking h₁, h₂⟩
  let y : Moment := ⟨.completed p m, h₂⟩
  have hf : Frame h (j ++ [y]) h₂ := filled.completed hp rfl rfl
  -- when it is marked the load is in progress still, and at the next moment it is complete
  have hx : Settled (past ++ j) x := by
    have hh₁ := (filled.held hp hh hopen).mark (w := h₂.workspace) filled.here.2 rfl
    have hb := hj.balanced.append (k := [x]) fun _ => rfl
    rw [Settled, List.append_assoc, hb.inProgress]
    simpa [completions, x] using hh₁
  have hy : Settled (past ++ j ++ [x]) y := by
    have hb := hj.balanced.append (k := [x, y]) fun _ => rfl
    rw [Settled, List.append_assoc, List.append_assoc, List.singleton_append, hb.inProgress]
    simpa [completions, x] using hh.frame hf
  have kx : Keeps (past ++ j) [x] := .of_held (fun _ => by simp [x]) hx
  have ky : Keeps (past ++ j ++ [x]) [y] := .of_held (fun _ => by simp [y]) hy
  exact ⟨kj.append (kx.append ky), hf.congr (by simp [completions, y]), nofun⟩

theorem comes_load (hj : Played (.body realm p r) h j h₁) (ih : Comes (.body realm p r) h j h₁) :
    Comes (.load realm p r) h (Journal.bracket realm p h r j h₁) h₁ := by
  intro past ht hh
  let x : Moment := ⟨.called realm p, h⟩
  let c : Call := ⟨p, h, r, h₁, Journal.dispatches j, completions j⟩
  let y : Moment := ⟨.returned c, h₁⟩
  have hx : Settled past x :=
    hh.mono (by simp +contextual [x, Journal.opened]) (by simp +contextual)
  obtain ⟨kj, hf, hfail⟩ := ih (past ++ [x]) (ht.mono (by simp +contextual [Journal.bracket])) hx
    (by simp [x, Journal.opened]) (ht.plain x (by simp [Journal.bracket, x]) realm p rfl)
  have hy : Settled (past ++ [x] ++ j) y := by
    have hb : Balanced ([x] ++ j ++ [y]) := fun open_ => Journal.balanced_bracket hj.balanced open_
    rw [Settled, List.append_assoc, List.append_assoc, ← List.append_assoc [x], hb.inProgress]
    simpa [completions, x, y] using hh.frame hf
  have sound : c.Sound :=
    ⟨hf.kept, fun q m hq => (hf.added q m hq).imp_right And.left, hfail⟩
  have kx : Keeps past [x] := .of_held (fun _ => by simp [x]) hx
  have ky : Keeps (past ++ [x] ++ j) [y] := by
    refine ⟨⟨hy, trivial⟩, fun z hz c' hc => ?_⟩
    rw [List.mem_singleton.mp hz] at hc
    cases hc
    exact sound
  exact ⟨kx.append (kj.append ky), hf.congr (by simp [completions, Journal.bracket])⟩

/-- What every piece of a run comes to. -/
theorem Played.comes {c : Course} (hj : Played c h j h₁) : Comes c h j h₁ := by
  -- the loads in progress are those of the past, which each case takes as it comes
  induction hj with
  | nil part h => exact fun _ _ _ _ => ⟨⟨trivial, by simp⟩, .refl _ _⟩
  | append hj hk ihj ihk =>
    intro hc past ht hh
    obtain ⟨kj, fj⟩ := ihj hc past (ht.mono (by simp +contextual)) hh
    obtain ⟨kk, fk⟩ := ihk hc _ (ht.mono (by simp +contextual)) (held_after hj.balanced hh fj)
    exact ⟨kj.append kk, fj.trans fk⟩
  | ran part h w =>
    rintro rfl past ht hh
    have hf : Frame h [⟨.ran .code h, ⟨h.registry, w⟩⟩] ⟨h.registry, w⟩ :=
      .of_spares (ht.spares ⟨.ran .code h, _⟩ (List.mem_singleton_self _) h rfl)
    exact ⟨keeps_single (fun _ => rfl) (by simp) hh hf, hf⟩
  | threw h w hw =>
    intro _ past ht hh
    have hf : Frame h [⟨.ran .throwing h, ⟨h.registry, w⟩⟩] ⟨h.registry, w⟩ := .of_extends hw
    exact ⟨keeps_single (fun _ => rfl) (by simp) hh hf, hf⟩
  | missed part q h =>
    intro _ past ht hh
    exact ⟨keeps_single (fun _ => rfl) (by simp) hh (.refl _ _), .refl _ _⟩
  | @required part q p r h h₁ j _ _ ih =>
    intro _ past ht hh
    have hf : Frame h [⟨.asked part q, h⟩] h := .refl _ _
    obtain ⟨kj, fj⟩ := ih _ (ht.mono (by simp +contextual)) (held_after (fun _ => rfl) hh hf)
    exact ⟨(keeps_single (fun _ => rfl) (by simp) hh hf).append kj, hf.trans fj⟩
  | answered _ =>
    intro _ past ht hh
    exact ⟨keeps_single (fun _ => rfl) (by simp) hh (.refl _ _), .refl _ _⟩
  | code _ ih => exact fun _ => ih rfl
  | filling made _ _ _ ihk => exact comes_filling made ihk
  | found hm => exact fun _ _ _ _ _ => ⟨⟨trivial, by simp⟩, .refl _ _, nofun⟩
  | tooDeep hp =>
    intro past ht hh _ _
    exact ⟨keeps_single (fun _ => rfl) (by simp) hh (.refl _ _), .refl _ _, fun _ _ => hp⟩
  | unmade hp made =>
    intro past ht hh _ hplain
    obtain ⟨_, w, hrun, -⟩ := newModule_furnished _ (hplain hp)
    rw [perform_of_done hrun] at made
    cases made
  | failed hp hj ih => exact comes_failed hp hj ih
  | unmarked hp hj marked _ ih =>
    intro past ht hh hopen hplain
    obtain ⟨-, filled⟩ := ih past (ht.mono (by simp +contextual)) hh hopen (hplain hp)
    -- the object has its mark still, so marking it cannot fail
    rw [perform_of_done (setLoaded_of_marked filled.here.2)] at marked
    cases marked
  | completed hp hj marked _ ih => exact comes_completed hp hj marked ih
  | load hj ih => exact comes_load hj ih

end Rules

/-! ## Sessions -/

/-- Whatever is done with a host from outside leaves its registry held. -/
theorem Conducted.keeps {o : Operation} {h h' : Host} {j past : Journal}
    (hj : Conducted o h j h') (ht : Tame j) (hpast : inProgress past = [])
    (hh : h.Held [] (completions past)) :
    Keeps past j ∧ h'.Held [] (completions (past ++ j)) := by
  rw [← hpast] at hh
  have held {h₁ : Host} {k : Journal} (hb : k.Balanced) (hf : Frame h k h₁) :
      h₁.Held [] (completions (past ++ k)) := by
    simpa only [hb.inProgress, hpast] using held_after hb hh hf
  cases hj with
  | registered | hooked | edited | missed =>
    rw [hpast] at hh
    exact ⟨⟨trivial, by simp⟩, by rw [List.append_nil]; exact hh⟩
  | entered _ hj hk =>
    obtain ⟨kj, fj⟩ := hj.comes past (ht.mono (by simp +contextual)) hh
    obtain ⟨kk, fk⟩ := hk.comes rfl _ (ht.mono (by simp +contextual))
      (held_after hj.balanced hh fj)
    exact ⟨kj.append kk, held (hj.balanced.append hk.balanced) (fj.trans fk)⟩
  | executed hj =>
    obtain ⟨kj, fj⟩ := hj.comes rfl past ht hh
    exact ⟨kj, held hj.balanced fj⟩
  | @evicted _ p _ _ =>
    have hh₁ : Settled past ⟨.evicted p, h.withoutModule p⟩ := by
      simpa [Settled, completions, Journal.opened] using hh.withoutModule
    refine ⟨.of_held (fun _ => by simp) hh₁, ?_⟩
    simpa [Settled, hpast, Journal.opened] using hh₁
  | cleared => exact ⟨.of_held (fun _ => by simp) .clear, .clear⟩

/-- The registry of a session at rest: whenever no load is in progress, and at the end, every
registered module belongs to a load that was completed, and is marked as loaded. Every load,
also one that is nested in others, is sound. -/
structure Quiescent (j : Journal) (h : Host) : Prop where
  idle : ∀ a x b, j = a ++ x :: b → inProgress (a ++ [x]) = [] → ∀ p m,
    x.host.registry.modules.get? p = some m →
    (∃ q, q.same p ∧ (q, m) ∈ completions (a ++ [x])) ∧ x.host.workspace.heap.Marked m true
  last : ∀ p m, h.registry.modules.get? p = some m →
    (∃ q, q.same p ∧ (q, m) ∈ completions j) ∧ h.workspace.heap.Marked m true
  sound : ∀ x ∈ j, ∀ c, x.what = .returned c → c.Sound

namespace Session

theorem keeps (ops : Session) {h : Host} {past : Journal} (ht : Tame (ops.journal h))
    (hpast : inProgress past = []) (hh : h.Held [] (completions past)) :
    Keeps past (ops.journal h) ∧
      (ops.run h).Held [] (completions (past ++ ops.journal h)) := by
  induction ops generalizing h past with
  | nil => exact ⟨⟨trivial, by simp [journal]⟩, by simpa [journal, run] using hh⟩
  | cons o rest ih =>
    have ho := o.conducted h
    obtain ⟨kj, hj⟩ := ho.keeps (ht.mono (by simp +contextual [journal])) hpast hh
    obtain ⟨kk, hk⟩ := ih (ht.mono (by simp +contextual [journal]))
      ((ho.balanced.inProgress past).trans hpast) hj
    exact ⟨kj.append kk, by simpa [journal, run] using hk⟩

/-- Whatever is done with a host, in any order and with any changes of the files in between, its
registry is at rest whenever no load is in progress. -/
theorem quiescent (w : World) (ops : Session) (ht : Tame (ops.journal (.start w))) :
    Quiescent (ops.journal (.start w)) (ops.run (.start w)) := by
  have hstart : (Host.start w).Held [] (completions []) := nofun
  obtain ⟨hk, hlast⟩ := ops.keeps ht rfl hstart
  refine ⟨fun a x b e hidle p m hm => ?_, fun p m hm => ?_, hk.sound⟩
  · have hx : Settled a x := by simpa using Journal.every_iff.mp hk.settled a x b e
    rw [Settled, hidle] at hx
    exact (hx p m hm).resolve_left (by simp)
  · exact (hlast p m hm).resolve_left (by simp)

end Session

/-- Visits to modules that are given without scripts are tame. -/
theorem Visited.tame {h₀ g : Host} {j : Journal} (a : Visited h₀ g j) : Tame j where
  spares x hx := (a.moments x hx).spares
  plain := a.plain

/-- The registry is at rest between and after the rounds through a tangle of modules. -/
theorem Session.quiescent_tangle :
    Quiescent ((steppedOnly ++ rounds).journal (.start tangle))
      ((steppedOnly ++ rounds).run (.start tangle)) :=
  quiescent tangle (steppedOnly ++ rounds) visited_tangle.tame

end LoadHook
