import LoadHook.Proofs.Path.Map
import LoadHook.Proofs.Registry.Visits

/-!
# Loads are memoised

The registry is what its journal says: a dispatch registers a module, and a failure, an eviction
or a clearing removes it. As long as nothing is asked for while the object of a module is being
made, a handler is dispatched only for a path that is not registered. So from its registration
to its removal a module is dispatched once, and each load of it in between gives it back at once.
-/
namespace LoadHook

open Script (Value RealmRef Ref)
open Journal (Every)

variable {past j k : Journal} {x y : Moment} {p q : Path} {m n : Ref} {h h₁ : Host}
  {realm : RealmRef}

/-- The registered modules after a journal. -/
def Journal.replay (j : Journal) : PathMap Ref := j.foldl Moment.replay .empty

@[simp] theorem Journal.replay_append (j k : Journal) :
    Journal.replay (j ++ k) = k.foldl Moment.replay (Journal.replay j) := List.foldl_append

/-- Whether a moment dispatches the handler for a path. -/
def Moment.dispatches (p : Path) (x : Moment) : Bool :=
  match x.what with
  | .dispatched q _ => q.same p
  | _ => false

theorem Moment.dispatches_iff :
    x.dispatches p ↔ ∃ q m, x.what = .dispatched q m ∧ q.same p := by
  obtain ⟨what, g⟩ := x
  cases what with
  | dispatched q m => exact ⟨fun hs => ⟨q, m, rfl, hs⟩, by rintro ⟨_, _, ⟨⟩, hs⟩; exact hs⟩
  | _ => simp [dispatches]

/-- Whether the module of a path is removed at a moment, if there is one. -/
def Moment.removes (p : Path) (x : Moment) : Bool :=
  match x.what with
  | .dropped q | .evicted q => q.same p
  | .cleared => true
  | _ => false

/-- Whether a path has been called since its module was removed the last time. -/
def Journal.Called (p : Path) (j : Journal) : Prop :=
  j.foldl (fun c x => x.calls p || c && !x.removes p) false

theorem Journal.called_concat :
    Journal.Called p (j ++ [x]) ↔ x.calls p ∨ Journal.Called p j ∧ x.removes p = false := by
  simp [Journal.Called]

/-- A moment tells what is registered, dispatches only what has been called and is not
registered, and serves what is. -/
structure Tracked (past : Journal) (x : Moment) : Prop where
  modules : x.host.registry.modules = Journal.replay (past ++ [x])
  fresh : ∀ p m, x.what = .dispatched p m → (Journal.replay past).get? p = none
  called : ∀ p m, x.what = .dispatched p m → ∀ q, p.same q → Journal.Called q past
  served : ∀ q before a, x.what = .answered q before a → Served q before a x.host

/-! ## Pieces of a run -/

/-- Any past. -/
def Anytime (_ : Journal) : Prop := True

/-- A past in which every spelling of a path has been called. -/
def Awaited (p : Path) (past : Journal) : Prop := ∀ q, p.same q → Journal.Called q past

/-- Every moment of a piece of a run is tracked, if the piece begins after a past of a kind. -/
def Memo (after : Journal → Prop) (h : Host) (j : Journal) (h' : Host) : Prop :=
  ∀ past, after past → h.registry.modules = Journal.replay past →
    Every Tracked past j ∧ h'.registry.modules = Journal.replay (past ++ j)

namespace Memo

variable {h₂ : Host} {after after' : Journal → Prop}

theorem nil (hh : h₁.registry.modules = h.registry.modules) : Memo after h [] h₁ :=
  fun _ _ hp => ⟨trivial, by rw [List.append_nil, hh, hp]⟩

theorem append (a : Memo after h j h₁) (b : Memo Anytime h₁ k h₂) : Memo after h (j ++ k) h₂ := by
  intro past ha hp
  obtain ⟨hj, hp₁⟩ := a past ha hp
  obtain ⟨hk, hp₂⟩ := b _ trivial hp₁
  exact ⟨Journal.every_append.mpr ⟨hj, hk⟩, by rw [hp₂, List.append_assoc]⟩

theorem cons (hm : x.host.registry.modules = x.replay h.registry.modules)
    (hd : ∀ p m, x.what = .dispatched p m → h.registry.modules.get? p = none ∧
      ∀ past, after past → Awaited p past)
    (hs : ∀ q before a, x.what = .answered q before a → Served q before a x.host)
    (ha : ∀ past, after past → after' (past ++ [x])) (b : Memo after' x.host j h₁) :
    Memo after h (x :: j) h₁ := by
  intro past hafter hp
  have hmod : x.host.registry.modules = Journal.replay (past ++ [x]) := by
    rw [hm, hp, Journal.replay_append]
    rfl
  obtain ⟨hj, hp₁⟩ := b _ (ha past hafter) hmod
  have hx : Tracked past x :=
    ⟨hmod, fun p m hpm => hp ▸ (hd p m hpm).1, fun p m hpm => (hd p m hpm).2 past hafter, hs⟩
  exact ⟨⟨hx, hj⟩, by simpa using hp₁⟩

/-- A moment at which no handler is dispatched. -/
theorem moment (hm : x.host.registry.modules = x.replay h.registry.modules)
    (hd : ∀ p m, x.what ≠ .dispatched p m)
    (hs : ∀ q before a, x.what = .answered q before a → Served q before a x.host) :
    Memo after h [x] x.host := by
  have hnil : Memo Anytime x.host [] x.host := nil rfl
  exact cons hm (fun p m hpm => absurd hpm (hd p m)) hs (fun _ _ => trivial) hnil

end Memo

/-- What an undisturbed piece of a run comes to. -/
def Memoises : Course → Host → Journal → Host → Prop
  | .steps _, h, j, h' | .load _ _ _, h, j, h' => Undisturbed j → Memo Anytime h j h'
  | .filling _ p _, h, j, h' => Undisturbed j → h.registry.modules.get? p = none →
    Memo (Awaited p) h j h'
  | .body _ p _, h, j, h' => Undisturbed j → Memo (Awaited p) h j h'

section Rules

open Recorded

variable {f : Answerer} {h₂ : Host}

theorem memoises_filling (made : perform .making f (Host.newModule realm p) h = ⟨.ok m, h₁, j⟩)
    (ihk : Memoises (.steps .code) (h₁.withModule p m) k h₂) :
    Memoises (.filling realm p m) h (j ++ ⟨.dispatched p m, h₁.withModule p m⟩ :: k) h₂ := by
  intro hu hp
  -- nothing is asked for while the object is made, so the path is unregistered still
  obtain ⟨w, rfl, rfl, -⟩ := making_of_quiet made (.inr (hu.mono (by simp +contextual)))
  have hput : Memo (Awaited p) ⟨h.registry, w⟩
      (⟨.dispatched p m, Host.withModule ⟨h.registry, w⟩ p m⟩ :: k) h₂ := by
    refine .cons rfl ?_ (by simp) (fun _ _ => trivial) (ihk (hu.mono (by simp +contextual)))
    rintro _ _ ⟨⟩
    exact ⟨hp, fun _ => id⟩
  refine .cons rfl (by simp) (by simp) (fun past ha q hq => ?_) hput
  exact Journal.called_concat.mpr (.inr ⟨ha q hq, rfl⟩)

/-- What every undisturbed piece of a run comes to. -/
theorem Played.memoises {c : Course} (hj : Played c h j h₁) : Memoises c h j h₁ := by
  induction hj with
  | nil part h => exact fun _ => .nil rfl
  | append _ _ ihj ihk =>
    exact fun hu => (ihj (hu.mono (by simp +contextual))).append
      (ihk (hu.mono (by simp +contextual)))
  | ran | threw | missed | tooDeep => exact fun _ => .moment rfl (by simp) (by simp)
  | required _ _ ih =>
    exact fun hu => .cons rfl (by simp) (by simp) (fun _ _ => trivial)
      (ih (hu.mono (by simp +contextual)))
  | answered hs =>
    refine fun _ => .moment rfl (by simp) ?_
    rintro _ _ _ ⟨⟩
    exact hs
  | code _ ih => exact ih
  | filling made _ _ _ ihk => exact memoises_filling made ihk
  | found _ => exact fun _ => .nil rfl
  | @unmade _ _ p _ _ h₁ _ _ _ _ _ =>
    exact fun hu => absurd rfl (hu.made ⟨.unmade p, h₁⟩ (by simp) p)
  | failed hp _ ih =>
    exact fun hu => (ih (hu.mono (by simp +contextual)) hp).append
      (.moment rfl (by simp) (by simp))
  | unmarked hp _ _ _ ih ihk =>
    exact fun hu => (ih (hu.mono (by simp +contextual)) hp).append
      (ihk (hu.mono (by simp +contextual)))
  | completed hp _ _ _ ih ihk =>
    exact fun hu => (ih (hu.mono (by simp +contextual)) hp).append
      ((ihk (hu.mono (by simp +contextual))).append (.moment rfl (by simp) (by simp)))
  | load _ ih =>
    intro hu
    have hbody := ih (hu.mono (by simp +contextual [Journal.bracket]))
    refine .cons rfl (by simp) (by simp) (fun past _ q hq => ?_)
      (hbody.append (.moment rfl (by simp) (by simp)))
    exact Journal.called_concat.mpr (.inl hq)

end Rules

/-! ## Between registration and removal -/

section Spans

variable {b : Journal}

/-- What is registered stays so until it is removed, and is not dispatched again. -/
theorem Tracked.registered (hx : Tracked past x) (hm : (Journal.replay past).get? p = some m)
    (hr : x.removes p = false) :
    (Journal.replay (past ++ [x])).get? p = some m ∧ x.dispatches p = false := by
  rw [Journal.replay_append]
  obtain ⟨what, g⟩ := x
  cases what with
  | dispatched q n =>
    have hs : q.same p = false := PathMap.not_same_of_get? (hx.fresh q n rfl) hm
    exact ⟨(PathMap.get?_insert_of_not_same hs).trans hm, hs⟩
  | dropped q | evicted q => exact ⟨(PathMap.get?_erase_of_not_same hr).trans hm, rfl⟩
  | cleared => cases hr
  | _ => exact ⟨hm, rfl⟩

/-- What is removed stays so until it is dispatched again. -/
theorem Moment.get?_replay_of_gone {modules : PathMap Ref} (hm : modules.get? p = none)
    (hd : x.dispatches p = false) : (x.replay modules).get? p = none := by
  obtain ⟨what, g⟩ := x
  cases what with
  | dispatched q n => exact (PathMap.get?_insert_of_not_same hd).trans hm
  | dropped q | evicted q => exact PathMap.get?_erase_of_none hm
  | cleared => rfl
  | _ => exact hm

theorem get?_replay_of_gone (hm : (Journal.replay past).get? p = none)
    (hd : x.dispatches p = false) : (Journal.replay (past ++ [x])).get? p = none := by
  rw [Journal.replay_append]
  exact x.get?_replay_of_gone hm hd

theorem get?_replay_of_removes (hr : x.removes p) :
    (Journal.replay (past ++ [x])).get? p = none := by
  rw [Journal.replay_append]
  obtain ⟨what, g⟩ := x
  cases what with
  | dropped q | evicted q => exact PathMap.get?_erase_of_same hr
  | cleared => rfl
  | _ => cases hr

theorem get?_replay_of_dispatched (hx : x.what = .dispatched p m) :
    (Journal.replay (past ++ [x])).get? p = some m := by
  rw [Journal.replay_append]
  obtain ⟨what, g⟩ := x
  subst hx
  exact PathMap.get?_insert_of_same (Path.same_refl p)

/-- After a removal a path has not been called. -/
theorem not_called_of_removes (hr : x.removes p) : ¬ Journal.Called p (past ++ [x]) := by
  rw [Journal.called_concat, hr]
  obtain ⟨what, g⟩ := x
  cases what with
  | dropped | evicted | cleared => simp [Moment.calls]
  | _ => cases hr

theorem registered_until (hb : Every Tracked past b)
    (hm : (Journal.replay past).get? p = some m) (hr : ∀ y ∈ b, y.removes p = false) :
    (∀ y ∈ b, y.host.registry.modules.get? p = some m ∧ y.dispatches p = false) ∧
      (Journal.replay (past ++ b)).get? p = some m := by
  induction b generalizing past with
  | nil => exact ⟨by simp, by simpa using hm⟩
  | cons y b ih =>
    obtain ⟨hy, hb⟩ := hb
    obtain ⟨hm₁, hd⟩ := hy.registered hm (hr y List.mem_cons_self)
    obtain ⟨hrest, hlast⟩ := ih hb hm₁ fun z hz => hr z (List.mem_cons_of_mem y hz)
    refine ⟨fun z hz => ?_, by simpa using hlast⟩
    rcases List.mem_cons.mp hz with rfl | hz
    · exact ⟨hy.modules ▸ hm₁, hd⟩
    · exact hrest z hz

/-- What is removed and not called again is not registered. -/
theorem gone_until (hb : Every Tracked past b) (hm : (Journal.replay past).get? p = none)
    (hn : ¬ Journal.Called p past) (hc : ∀ y ∈ b, y.calls p = false) :
    (Journal.replay (past ++ b)).get? p = none := by
  induction b generalizing past with
  | nil => simpa using hm
  | cons y b ih =>
    obtain ⟨hy, hb⟩ := hb
    have hd : y.dispatches p = false := by
      obtain ⟨what, g⟩ := y
      cases what with
      | dispatched q n => exact Bool.eq_false_iff.mpr fun hs => hn (hy.called q n rfl p hs)
      | _ => rfl
    have hn₁ : ¬ Journal.Called p (past ++ [y]) := by
      rw [Journal.called_concat, hc y List.mem_cons_self]
      rintro (h | ⟨h, -⟩)
      · cases h
      · exact hn h
    simpa using ih hb (get?_replay_of_gone hm hd) hn₁ fun z hz => hc z (List.mem_cons_of_mem y hz)

end Spans

/-! ## Tracked journals -/

section Tracking

variable {a b d : Journal}

/-- What comes after a moment of a tracked journal is tracked with that moment in its past. -/
theorem tracked_after (hj : Every Tracked [] j) (he : j = a ++ x :: (b ++ d)) :
    Every Tracked (a ++ [x]) b := by
  rw [he] at hj
  simp only [Journal.every_append, Journal.every_cons, List.nil_append] at hj
  exact hj.2.2.1

/-- From its dispatch to its removal a module stays registered and is not dispatched again. -/
theorem once_of_tracked (hj : Every Tracked [] j) (he : j = a ++ x :: (b ++ d))
    (hx : x.what = .dispatched p m) (hr : ∀ y ∈ b, y.removes p = false) :
    ∀ y ∈ b, y.host.registry.modules.get? p = some m ∧ y.dispatches p = false :=
  (registered_until (tracked_after hj he) (get?_replay_of_dispatched hx) hr).1

/-- At each moment that does not remove it either, a module that has been dispatched and not been
removed is registered under every spelling of its path. -/
theorem get?_of_tracked (hj : Every Tracked [] j) (he : j = a ++ x :: (b ++ y :: d))
    (hx : x.what = .dispatched p m) (hr : ∀ z ∈ b, z.removes p = false)
    (hy : y.removes p = false) (hs : p.same q) :
    y.host.registry.modules.get? q = some m := by
  have he' : j = a ++ x :: ((b ++ [y]) ++ d) := by simpa using he
  have hr' : ∀ z ∈ b ++ [y], z.removes p = false := by
    simpa [or_imp, forall_and] using ⟨hr, hy⟩
  rw [← PathMap.get?_congr hs]
  exact (once_of_tracked hj he' hx hr' y (by simp)).1

/-- A module that has been removed and not been called again is not registered when it is called
under any spelling of its path. -/
theorem get?_of_removed (hj : Every Tracked [] j) (he : j = a ++ x :: (b ++ y :: d))
    (hx : x.removes p) (hc : ∀ z ∈ b, z.calls p = false) (hy : y.what = .called realm q)
    (hs : p.same q) : y.host.registry.modules.get? q = none := by
  have he' : j = a ++ x :: ((b ++ [y]) ++ d) := by simpa using he
  have hb := tracked_after hj he'
  rw [Journal.every_append] at hb
  have hgone := gone_until hb.1 (get?_replay_of_removes hx) (not_called_of_removes hx) hc
  rw [hb.2.1.modules, ← PathMap.get?_congr hs]
  exact get?_replay_of_gone hgone (by simp [Moment.dispatches, hy])

/-- Each load of a registered module gives it back at once. -/
theorem givesBack_of_tracked (hj : Every Tracked [] j) (hopens : Opens j)
    (he : j = a ++ x :: (b ++ y :: d)) (hx : x.what = .dispatched p m)
    (hr : ∀ z ∈ b, z.removes p = false) (hy : y.what = .called realm q) (hs : p.same q) :
    GivesBack q m y.host d :=
  (hopens.follows_after he realm q hy).1 m
    (get?_of_tracked hj he hx hr (by simp [Moment.removes, hy]) hs)

end Tracking

/-! ## Sessions -/

/-- Whatever is done with a host from outside is tracked. -/
theorem Conducted.memo {o : Operation} (hj : Conducted o h j h₁) (hu : Undisturbed j) :
    Memo Anytime h j h₁ := by
  cases hj with
  | registered | hooked | edited | missed => exact .nil rfl
  | entered _ hj hk =>
    exact (hj.memoises (hu.mono (by simp +contextual))).append
      (hk.memoises (hu.mono (by simp +contextual)))
  | executed hj => exact hj.memoises hu
  | evicted | cleared => exact .moment rfl (by simp) (by simp)

/-- What memoising comes to in a journal.

From the dispatch that registers a module until its removal the module stays registered and is
not dispatched again, and each load of it that is called meanwhile, however deep in other loads
and its own one, gives it back at once without anything else happening. Who asks for a registered
module gets what its exports hold at that moment. After a removal the next load makes a new
object and dispatches the handler again, unless loads are nested too deep for it. -/
structure Memoised (j : Journal) : Prop where
  once : ∀ a x b d p m, j = a ++ x :: (b ++ d) → x.what = .dispatched p m →
    (∀ y ∈ b, y.removes p = false) →
    ∀ y ∈ b, y.host.registry.modules.get? p = some m ∧ y.dispatches p = false
  found : ∀ a x b y d p m realm q, j = a ++ x :: (b ++ y :: d) → x.what = .dispatched p m →
    (∀ z ∈ b, z.removes p = false) → y.what = .called realm q → p.same q →
    GivesBack q m y.host d
  served : ∀ x ∈ j, ∀ q before a, x.what = .answered q before a → Served q before a x.host
  anew : ∀ a x b y d p realm q, j = a ++ x :: (b ++ y :: d) → x.removes p →
    (∀ z ∈ b, z.calls p = false) → y.what = .called realm q → p.same q →
    Refuses q y.host d ∨ Dispatches q y.host d

namespace Session

theorem memo (ops : Session) (h : Host) (hu : Undisturbed (ops.journal h)) :
    Memo Anytime h (ops.journal h) (ops.run h) := by
  induction ops generalizing h with
  | nil => exact .nil rfl
  | cons o rest ih =>
    exact ((o.conducted h).memo (hu.mono (by simp +contextual [journal]))).append
      (ih (o.run h) (hu.mono (by simp +contextual [journal])))

/-- Every moment of a session in which nothing is asked for while the object of a module is being
made is tracked. -/
theorem tracked (w : World) (ops : Session) (hu : Undisturbed (ops.journal (.start w))) :
    Every Tracked [] (ops.journal (.start w)) := (ops.memo (.start w) hu [] trivial rfl).1

/-- Loads are memoised in every session in which nothing is asked for while the object of a module
is being made. -/
theorem memoised (w : World) (ops : Session) (hu : Undisturbed (ops.journal (.start w))) :
    Memoised (ops.journal (.start w)) := by
  have hj := tracked w ops hu
  have hopens := ops.opens (.start w)
  generalize ops.journal (.start w) = j at hu hj hopens
  refine ⟨fun a x b d p m he hx hr => once_of_tracked hj he hx hr,
    fun a x b y d p m realm q he hx hr hy hs => givesBack_of_tracked hj hopens he hx hr hy hs,
    fun x hx => ?served, fun a x b y d p realm q he hx hc hy hs => ?anew⟩
  case served =>
    obtain ⟨a, b, he⟩ := List.append_of_mem hx
    have hx : Tracked a x := by simpa using Journal.every_iff.mp hj a x b he
    exact hx.served
  case anew =>
    exact (hopens.follows_after he realm q hy).2 (get?_of_removed hj he hx hc hy hs)
      (.inr (hu.mono (by simp +contextual [he])))

/-- Loads are memoised in the rounds through a tangle of modules. -/
theorem memoised_tangle : Memoised ((steppedOnly ++ rounds).journal (.start tangle)) :=
  memoised tangle (steppedOnly ++ rounds)
    (undisturbed (steppedOnly ++ rounds) (.start tangle) visited_tangle.plain)

end Session
end LoadHook
