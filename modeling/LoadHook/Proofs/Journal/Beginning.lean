import LoadHook.Proofs.Journal.Played

/-!
# Runs step by step

However loads are nested, the registry changes from one moment to the next only: a dispatch
registers a module whose load has begun, and a failure, an eviction or a clearing removes it. What
is called is a path that was made absolute outside, or what somebody has just asked for.

A load of a registered module gives it back at once. Any other load makes an object, registers it
and dispatches the handler, unless loads are nested too deep. Nothing comes in between as long as
nothing is asked for while the object is being made, as it is where the names of a module mean
nothing special.
-/
namespace LoadHook

open Script (RealmRef Ref)

section Steps

variable {past j k : Journal} {x : Moment} {g g₁ g₂ : Registry} {p : Path} {h h₁ : Host}

/-- The registered modules after a moment. -/
def Moment.replay (modules : PathMap Ref) (x : Moment) : PathMap Ref :=
  match x.what with
  | .dispatched p m => modules.insert p m
  | .dropped p | .evicted p => modules.erase p
  | .cleared => .empty
  | _ => modules

/-- Whether a moment begins a load of a path. -/
def Moment.calls (p : Path) (x : Moment) : Bool :=
  match x.what with
  | .called _ q => q.same p
  | _ => false

/-- Where the path of a load comes from: from outside, or from who has just asked for it. -/
inductive Origin (past : Journal) (h : Host) (p : Path) : Prop
  | entered {t : FileTree} {p₀ : Path} : Host.absolute t p₀ = .ok p → Origin past h p
  | required {part : Part} {q : Requirement} : ⟨.asked part q, h⟩ ∈ past →
      h.resolve q.specifier q.dir = .ok p → Origin past h p

/-- A load of a path has begun. -/
def Begun (p : Path) (past : Journal) : Prop := ∃ y ∈ past, ∃ realm, y.what = .called realm p

/-- A moment as it may come after a past in which the registry has come to be `g`. -/
structure Step (past : Journal) (g : Registry) (x : Moment) : Prop where
  handlers : x.host.registry.handlers = g.handlers
  modules : x.host.registry.modules = x.replay g.modules
  called : ∀ realm p, x.what = .called realm p → Origin past x.host p
  dispatched : ∀ p m, x.what = .dispatched p m → Begun p past

/-- A journal in which every moment is a step from the one before. -/
def Chain : Journal → Registry → Journal → Registry → Prop
  | _, g, [], g' => g' = g
  | past, g, x :: rest, g' => Step past g x ∧ Chain (past ++ [x]) x.host.registry rest g'

theorem Begun.append (hp : Begun p past) (j : Journal) : Begun p (past ++ j) := by
  obtain ⟨y, hy, hcalled⟩ := hp
  exact ⟨y, List.mem_append_left j hy, hcalled⟩

namespace Chain

theorem append (hj : Chain past g j g₁) (hk : Chain (past ++ j) g₁ k g₂) :
    Chain past g (j ++ k) g₂ := by
  induction j generalizing past g with
  | nil =>
    rw [← show g₁ = g from hj]
    simpa using hk
  | cons x j ih => exact ⟨hj.1, ih hj.2 (by simpa using hk)⟩

/-- Nothing that happens changes which handlers are registered. -/
theorem handlers (hj : Chain past g j g₁) : g₁.handlers = g.handlers := by
  induction j generalizing past g with
  | nil => rw [show g₁ = g from hj]
  | cons x j ih => exact (ih hj.2).trans hj.1.handlers

/-- A moment at which no load is called and no handler dispatched. -/
theorem moment (hh : x.host.registry.handlers = g.handlers)
    (hm : x.host.registry.modules = x.replay g.modules)
    (hc : ∀ realm p, x.what ≠ .called realm p) (hd : ∀ p m, x.what ≠ .dispatched p m) :
    Chain past g [x] x.host.registry :=
  ⟨⟨hh, hm, fun realm p e => absurd e (hc realm p), fun p m e => absurd e (hd p m)⟩, rfl⟩

end Chain

/-- What a piece of a run is as a chain of steps. -/
def Chains : Course → Host → Journal → Host → Prop
  | .steps _, h, j, h' => ∀ past, Chain past h.registry j h'.registry
  | .filling _ p _, h, j, h' | .body _ p _, h, j, h' =>
    ∀ past, Begun p past → Chain past h.registry j h'.registry
  | .load _ p _, h, j, h' => ∀ past, Origin past h p → Chain past h.registry j h'.registry

/-- Every piece of a run is a chain of steps. -/
theorem Played.chains {c : Course} (hj : Played c h j h₁) : Chains c h j h₁ := by
  induction hj with
  | nil => exact fun _ => rfl
  | found => exact fun _ _ => rfl
  | append _ _ ihj ihk => exact fun past => (ihj past).append (ihk _)
  | ran | threw | missed | answered => exact fun _ => .moment rfl rfl (by simp) (by simp)
  | tooDeep _ => exact fun _ _ => .moment rfl rfl (by simp) (by simp)
  | @required part q _ _ h _ _ hp _ ih =>
    intro past
    have hasked : ⟨.asked part q, h⟩ ∈ past ++ [(⟨.asked part q, h⟩ : Moment)] := by simp
    exact ⟨⟨rfl, rfl, by simp, by simp⟩, ih _ (.required hasked hp)⟩
  | code _ ih => exact ih
  | filling _ _ _ ihj ihk =>
    refine fun past hp => (ihj past).append ⟨⟨rfl, rfl, by simp, ?_⟩, ihk _⟩
    rintro _ _ ⟨⟩
    exact hp.append _
  | unmade _ _ _ ih => exact fun past _ => (ih past).append (.moment rfl rfl (by simp) (by simp))
  | failed _ _ ih => exact fun past hp => (ih past hp).append (.moment rfl rfl (by simp) (by simp))
  | unmarked _ _ _ _ ihj ihk => exact fun past hp => (ihj past hp).append (ihk _)
  | completed _ _ _ _ ihj ihk =>
    exact fun past hp => (ihj past hp).append
      ((ihk _).append (.moment rfl rfl (by simp) (by simp)))
  | @load realm p _ h _ _ _ ih =>
    intro past hp
    let x : Moment := ⟨.called realm p, h⟩
    have hbegun : Begun p (past ++ [x]) := ⟨x, by simp, realm, rfl⟩
    refine ⟨⟨rfl, rfl, ?_, by simp⟩, (ih _ hbegun).append (.moment rfl rfl (by simp) (by simp))⟩
    rintro _ _ ⟨⟩
    exact hp

/-- What is done with a host from outside registers a handler or is a chain of steps. -/
theorem Conducted.chain {o : Operation} (hj : Conducted o h j h₁) :
    (∃ e f, o = .register e f ∧ j = [] ∧ h₁ = h.register e f) ∨
      ∀ past, Chain past h.registry j h₁.registry := by
  cases hj with
  | registered e f => exact .inl ⟨e, f, rfl, rfl, rfl⟩
  | hooked | edited | missed => exact .inr fun _ => rfl
  | entered hp hj hk =>
    exact .inr fun past => (hj.chains past (.entered hp)).append (hk.chains _)
  | executed hj => exact .inr hj.chains
  | evicted | cleared => exact .inr fun _ => .moment rfl rfl (by simp) (by simp)

end Steps

/-! ## The beginning of a load -/

section Loads

variable {j k : Journal} {x : Moment} {p : Path} {m : Ref} {h h₁ h₂ : Host} {realm : RealmRef}

/-- Nothing is asked for while the object of a module is being made, and making it does not
fail. -/
structure Undisturbed (j : Journal) : Prop where
  unasked : ∀ x ∈ j, ∀ q, x.what ≠ .asked .making q
  made : ∀ x ∈ j, ∀ p, x.what ≠ .unmade p

namespace Undisturbed

theorem mono (hu : Undisturbed k) (hjk : ∀ x ∈ j, x ∈ k) : Undisturbed j :=
  ⟨fun x hx => hu.unasked x (hjk x hx), fun x hx => hu.made x (hjk x hx)⟩

theorem append (hj : Undisturbed j) (hk : Undisturbed k) : Undisturbed (j ++ k) where
  unasked x hx := (List.mem_append.mp hx).elim (hj.unasked x) (hk.unasked x)
  made x hx := (List.mem_append.mp hx).elim (hj.made x) (hk.made x)

theorem single (ha : ∀ q, x.what ≠ .asked .making q) (hm : ∀ p, x.what ≠ .unmade p) :
    Undisturbed [x] where
  unasked _ hy := List.mem_singleton.mp hy ▸ ha
  made _ hy := List.mem_singleton.mp hy ▸ hm

theorem cons (hj : Undisturbed j) (ha : ∀ q, x.what ≠ .asked .making q)
    (hm : ∀ p, x.what ≠ .unmade p) : Undisturbed (x :: j) := (single ha hm).append hj

end Undisturbed

/-- The host asks for nothing while it makes the object of a module at the beginning of a
journal. -/
def Quiet (realm : RealmRef) (h : Host) (j : Journal) : Prop :=
  h.workspace.heap.PlainFor realm ∨ Undisturbed j

theorem Quiet.mono (hq : Quiet realm h k) (hjk : ∀ x ∈ j, x ∈ k) : Quiet realm h j :=
  hq.imp_right fun hu => hu.mono hjk

section Making

open Recorded

variable {f : Answerer} {r : Except Failure Ref}

/-- Making a module object without asking for anything is one stretch, and the object is new. -/
theorem making_of_quiet (made : perform .making f (Host.newModule realm p) h = ⟨r, h₁, j⟩)
    (hq : Quiet realm h j) :
    ∃ w, h₁ = ⟨h.registry, w⟩ ∧ j = [⟨.ran .making h, h₁⟩] ∧
      ∀ m, r = .ok m → h.workspace.heap.objects.size ≤ m := by
  rw [perform] at made
  cases hx : Host.newModule realm p h.workspace with
  | ask q w next =>
    rcases hq with hplain | hu
    · obtain ⟨_, w', hrun, -⟩ := newModule_furnished p hplain
      cases hx.symm.trans hrun
    · rw [hx] at made
      cases made
      exact absurd rfl (hu.unasked ⟨.asked .making q, ⟨h.registry, w⟩⟩ (by simp) q)
  | done r' =>
    obtain ⟨r', w⟩ := r'
    rw [hx] at made
    cases made
    refine ⟨w, rfl, rfl, ?_⟩
    rintro m rfl
    rw [ref_newModule hx]
    exact Nat.le_succ _

/-- Where the names of a module mean nothing special its object is made. -/
theorem made_of_plain (made : perform .making f (Host.newModule realm p) h = ⟨r, h₁, j⟩)
    (hplain : h.workspace.heap.PlainFor realm) : ∃ m, r = .ok m := by
  obtain ⟨_, w, hrun, -⟩ := newModule_furnished p hplain
  rw [perform_of_done hrun] at made
  cases made
  exact ⟨_, rfl⟩

end Making

/-! ## What comes after a call -/

/-- What comes after the call of a load for which the handler is dispatched: a new object is
made, registered and dispatched. -/
def Dispatches (p : Path) (h : Host) (rest : Journal) : Prop :=
  ∃ m w d, h.workspace.heap.objects.size ≤ m ∧
    rest = ⟨.ran .making h, ⟨h.registry, w⟩⟩ ::
      ⟨.dispatched p m, Host.withModule ⟨h.registry, w⟩ p m⟩ :: d

/-- What comes after the call of a load that gives a module back at once. -/
def GivesBack (p : Path) (m : Ref) (h : Host) (rest : Journal) : Prop :=
  ∃ d, rest = ⟨.returned ⟨p, h, .ok m, h, [], []⟩, h⟩ :: d

/-- What comes after the call of a load that is nested too deep. -/
def Refuses (p : Path) (h : Host) (rest : Journal) : Prop := ∃ d, rest = ⟨.tooDeep p, h⟩ :: d

/-- How a load goes on from its call. -/
def Follows (x : Moment) (rest : Journal) : Prop :=
  ∀ realm p, x.what = .called realm p →
    (∀ m, x.host.registry.modules.get? p = some m → GivesBack p m x.host rest) ∧
    (x.host.registry.modules.get? p = none → Quiet realm x.host rest →
      Refuses p x.host rest ∨ Dispatches p x.host rest)

/-- Every load of a journal goes on as it should. -/
def Opens : Journal → Prop
  | [] => True
  | x :: rest => Follows x rest ∧ Opens rest

theorem Dispatches.append (hj : Dispatches p h j) (k : Journal) : Dispatches p h (j ++ k) := by
  obtain ⟨m, w, d, hm, rfl⟩ := hj
  exact ⟨m, w, d ++ k, hm, rfl⟩

theorem Follows.append (hx : Follows x j) : Follows x (j ++ k) := by
  intro realm p hp
  obtain ⟨hfound, hnew⟩ := hx realm p hp
  refine ⟨fun m hm => ?_, fun hnone hq => ?_⟩
  · obtain ⟨d, rfl⟩ := hfound m hm
    exact ⟨d ++ k, rfl⟩
  · rcases hnew hnone (hq.mono (by simp +contextual)) with ⟨d, rfl⟩ | hd
    · exact .inl ⟨d ++ k, rfl⟩
    · exact .inr (hd.append k)

theorem follows_of_not_called (hx : ∀ realm p, x.what ≠ .called realm p) : Follows x j :=
  fun realm p hp => absurd hp (hx realm p)

namespace Opens

theorem append (hj : Opens j) (hk : Opens k) : Opens (j ++ k) := by
  induction j with
  | nil => exact hk
  | cons x j ih => exact ⟨hj.1.append, ih hj.2⟩

theorem cons (hk : Opens k) (hx : ∀ realm p, x.what ≠ .called realm p) : Opens (x :: k) :=
  ⟨follows_of_not_called hx, hk⟩

theorem single (hx : ∀ realm p, x.what ≠ .called realm p) : Opens [x] := .cons trivial hx

theorem follows (hj : Opens (j ++ x :: k)) : Follows x k := by
  induction j with
  | nil => exact hj.1
  | cons y j ih => exact ih hj.2

/-- How a load goes on that is called some time after another moment. -/
theorem follows_after {a b d : Journal} {y : Moment} (hj : Opens j)
    (he : j = a ++ x :: (b ++ y :: d)) : Follows y d := by
  rw [he, ← List.cons_append, ← List.append_assoc] at hj
  exact hj.follows

end Opens

/-- How the loads of a piece of a run go on. -/
def OpensIn : Course → Host → Journal → Host → Prop
  | .steps _, _, j, _ | .load _ _ _, _, j, _ => Opens j
  | .filling realm p _, h, j, _ =>
    Opens j ∧ ∀ k, Quiet realm h (j ++ k) → Dispatches p h j
  | .body realm p r, h, j, h' => Opens j ∧ Follows ⟨.called realm p, h⟩
    (j ++ [⟨.returned ⟨p, h, r, h', Journal.dispatches j, Journal.completions j⟩, h'⟩])

/-- A load whose object is made goes on with its dispatch. -/
theorem follows_of_filled (hp : h.registry.modules.get? p = none)
    (hj : ∀ k, Quiet realm h (j ++ k) → Dispatches p h j) (k : Journal) :
    Follows ⟨.called realm p, h⟩ (j ++ k) := by
  rintro _ _ ⟨⟩
  refine ⟨fun n hn => ?_, fun _ hq => .inr ((hj k hq).append k)⟩
  cases hp.symm.trans hn

open Recorded in
/-- Every load of a run goes on as it should. -/
theorem Played.opens {c : Course} (hj : Played c h j h₁) : OpensIn c h j h₁ := by
  induction hj with
  | nil => trivial
  | append _ _ ihj ihk => exact ihj.append ihk
  | ran | threw | missed | answered => exact .single (by simp)
  | required _ _ ih => exact .cons ih (by simp)
  | code _ ih => exact ih
  | filling made _ _ ihj ihk =>
    refine ⟨ihj.append (.cons ihk (by simp)), fun k hq => ?_⟩
    obtain ⟨w, rfl, rfl, hfresh⟩ := making_of_quiet made (hq.mono (by simp +contextual))
    exact ⟨_, w, _, hfresh _ rfl, rfl⟩
  | found hm =>
    refine ⟨trivial, ?_⟩
    rintro _ _ ⟨⟩
    refine ⟨fun n hn => ?_, fun hnone => ?_⟩
    · cases hm.symm.trans hn
      exact ⟨[], rfl⟩
    · cases hm.symm.trans hnone
  | tooDeep hp =>
    refine ⟨.single (by simp), ?_⟩
    rintro _ _ ⟨⟩
    refine ⟨fun n hn => ?_, fun _ _ => .inl ⟨_, rfl⟩⟩
    cases hp.symm.trans hn
  | @unmade _ _ p _ h h₁ j hp made _ ih =>
    refine ⟨ih.append (.single (by simp)), ?_⟩
    rintro _ _ ⟨⟩
    refine ⟨fun n hn => ?_, fun _ hq => ?_⟩
    · cases hp.symm.trans hn
    · rcases hq with hplain | hu
      · obtain ⟨m, hm⟩ := made_of_plain made hplain
        cases hm
      · exact absurd rfl (hu.made ⟨.unmade p, h₁⟩ (by simp) p)
  | failed hp _ ih =>
    refine ⟨ih.1.append (.single (by simp)), ?_⟩
    rw [List.append_assoc]
    exact follows_of_filled hp ih.2 _
  | unmarked hp _ _ _ ih ihk =>
    refine ⟨ih.1.append ihk, ?_⟩
    rw [List.append_assoc]
    exact follows_of_filled hp ih.2 _
  | completed hp _ _ _ ih ihk =>
    refine ⟨ih.1.append (ihk.append (.single (by simp))), ?_⟩
    rw [List.append_assoc]
    exact follows_of_filled hp ih.2 _
  | load _ ih => exact ⟨ih.2, ih.1.append (.single (by simp))⟩

theorem Conducted.opens {o : Operation} (hj : Conducted o h j h₁) : Opens j := by
  cases hj with
  | registered | hooked | edited | missed => trivial
  | entered _ hj hk => exact hj.opens.append hk.opens
  | executed hj => exact hj.opens
  | evicted | cleared => exact .single (by simp)

/-- Every load of a session goes on as it should. -/
theorem Session.opens (ops : Session) (h : Host) : Opens (ops.journal h) := by
  induction ops generalizing h with
  | nil => trivial
  | cons o rest ih => exact (o.conducted h).opens.append (ih (o.run h))

/-! ## What keeps making undisturbed -/

/-- What a piece of a run comes to in which the names of a module mean nothing special. -/
def Quiets : Course → Host → Journal → Host → Prop
  | .steps part, _, j, _ => part ≠ .making → j.Plain → Undisturbed j
  | .filling realm _ _, h, j, _ => j.Plain → h.workspace.heap.PlainFor realm → Undisturbed j
  | .body realm p _, h, j, _ => j.Plain →
    (h.registry.modules.get? p = none → h.workspace.heap.PlainFor realm) → Undisturbed j
  | .load _ _ _, _, j, _ => j.Plain → Undisturbed j

open Recorded in
theorem Played.quiets {c : Course} (hj : Played c h j h₁) : Quiets c h j h₁ := by
  induction hj with
  | nil | found => exact fun _ _ => ⟨by simp, by simp⟩
  | append _ _ ihj ihk =>
    exact fun hc hp => (ihj hc (hp.mono (by simp +contextual))).append
      (ihk hc (hp.mono (by simp +contextual)))
  | ran | threw | answered | tooDeep => exact fun _ _ => .single (by simp) (by simp)
  | missed part q h => exact fun hc _ => .single (by simp [hc]) (by simp)
  | required _ _ ih =>
    exact fun hc hp => (ih (hp.mono (by simp +contextual))).cons (by simp [hc]) (by simp)
  | code _ ih => exact fun _ => ih (by simp)
  | filling made _ _ _ ihk =>
    intro hp hplain
    obtain ⟨w, rfl, rfl, -⟩ := making_of_quiet made (.inl hplain)
    exact (Undisturbed.single (by simp) (by simp)).append
      ((ihk (by simp) (hp.mono (by simp +contextual))).cons (by simp) (by simp))
  | unmade hnone made _ _ =>
    intro hp hplain
    obtain ⟨m, hm⟩ := made_of_plain made (hplain hnone)
    cases hm
  | failed hnone _ ih =>
    exact fun hp hplain => (ih (hp.mono (by simp +contextual)) (hplain hnone)).append
      (.single (by simp) (by simp))
  | unmarked hnone _ _ _ ih ihk =>
    exact fun hp hplain => (ih (hp.mono (by simp +contextual)) (hplain hnone)).append
      (ihk (by simp) (hp.mono (by simp +contextual)))
  | completed hnone _ _ _ ih ihk =>
    exact fun hp hplain => (ih (hp.mono (by simp +contextual)) (hplain hnone)).append
      ((ihk (by simp) (hp.mono (by simp +contextual))).append (.single (by simp) (by simp)))
  | @load realm p r h h₁ j _ ih =>
    intro hp
    have hbody := ih (hp.mono (by simp +contextual [Journal.bracket]))
      (hp ⟨.called realm p, h⟩ (by simp [Journal.bracket]) realm p rfl)
    exact (hbody.append (.single (by simp) (by simp))).cons (by simp) (by simp)

/-- Whatever is done with a host from outside, making is undisturbed where the names of a module
mean nothing special. -/
theorem Conducted.undisturbed {o : Operation} (hj : Conducted o h j h₁) (hp : j.Plain) :
    Undisturbed j := by
  cases hj with
  | registered | hooked | edited | missed => exact ⟨by simp, by simp⟩
  | entered _ hj hk =>
    exact (hj.quiets (hp.mono (by simp +contextual))).append
      (hk.quiets (by simp) (hp.mono (by simp +contextual)))
  | executed hj => exact hj.quiets (by simp) hp
  | evicted | cleared => exact .single (by simp) (by simp)

/-- Where the names of a module mean nothing special, nothing is asked for while the object of a
module is being made. -/
theorem Session.undisturbed (ops : Session) (h : Host) (hp : (ops.journal h).Plain) :
    Undisturbed (ops.journal h) := by
  induction ops generalizing h with
  | nil => exact ⟨by simp [journal], by simp [journal]⟩
  | cons o rest ih =>
    exact ((o.conducted h).undisturbed (hp.mono (by simp +contextual [journal]))).append
      (ih (o.run h) (hp.mono (by simp +contextual [journal])))

end Loads

end LoadHook
