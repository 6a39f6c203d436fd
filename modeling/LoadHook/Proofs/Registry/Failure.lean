import LoadHook.Proofs.Registry.Memo

/-!
# Failed loads

A load may fail because loads are nested too deep, because the object of the module cannot be made,
because the handler fails, or because the module cannot be marked as loaded. Only a failure of the
handler removes what was registered: a module that cannot be marked stays registered, and the next
load gives it back as if it had been loaded.
-/
namespace LoadHook

open Script (RealmRef Ref)
open Journal (Every)

variable {past j k : Journal} {x y : Moment} {p q : Path} {m : Ref} {h h₁ : Host} {realm : RealmRef}

/-! ## What stays registered -/

/-- What is registered stays registered through every piece of a run. -/
theorem Played.kept {c : Course} (hj : Played c h j h₁)
    (hq : (h.registry.modules.get? q).isSome) : (h₁.registry.modules.get? q).isSome := by
  induction hj with
  | nil | ran | threw | missed | answered | found | tooDeep => exact hq
  | append _ _ ihj ihk => exact ihk (ihj hq)
  | required _ _ ih | code _ ih | unmade _ _ _ ih | load _ ih => exact ih hq
  | @filling _ _ p m _ _ _ _ _ _ _ _ ihj ihk =>
    refine ihk ?_
    obtain ⟨n, hn⟩ := Option.isSome_iff_exists.mp (ihj hq)
    by_cases hs : p.same q
    · exact Option.isSome_iff_exists.mpr ⟨m, PathMap.get?_insert_of_same hs⟩
    · refine Option.isSome_iff_exists.mpr ⟨n, ?_⟩
      exact (PathMap.get?_insert_of_not_same (Bool.eq_false_iff.mpr hs)).trans hn
  | failed hp _ ih =>
    -- the path that is removed was not registered before, so it is another one
    obtain ⟨m, hm⟩ := Option.isSome_iff_exists.mp hq
    obtain ⟨n, hn⟩ := Option.isSome_iff_exists.mp (ih hq)
    refine Option.isSome_iff_exists.mpr ⟨n, ?_⟩
    exact (PathMap.get?_erase_of_not_same (PathMap.not_same_of_get? hp hm)).trans hn
  | unmarked _ _ _ _ ihj ihk | completed _ _ _ _ ihj ihk => exact ihk (ihj hq)

/-- The handler of a path is not dispatched in a journal. -/
def Journal.Omits (q : Path) (j : Journal) : Prop :=
  ∀ r m, (r, m) ∈ dispatches j → r.same q = false

namespace Journal

theorem omits_append : Omits q (j ++ k) ↔ Omits q j ∧ Omits q k := by
  simp only [Omits, dispatches_append, List.mem_append, or_imp, forall_and]

theorem omits_single (hx : ∀ p m, x.what ≠ .dispatched p m) : Omits q [x] := by
  intro r m hr
  obtain ⟨what, g⟩ := x
  cases what with
  | dispatched p n => exact absurd rfl (hx p n)
  | _ => simp [dispatches] at hr

theorem Omits.cons (hj : Omits q j) (hx : ∀ p m, x.what ≠ .dispatched p m) : Omits q (x :: j) :=
  omits_append.mpr ⟨omits_single hx, hj⟩

end Journal

/-- The handler of a path is dispatched in no piece of a run in which it is registered already. -/
def Guards (q : Path) : Course → Host → Journal → Host → Prop
  | .filling _ p _, h, j, _ => Undisturbed j → h.registry.modules.get? p = none →
    (h.registry.modules.get? q).isSome → j.Omits q
  | _, h, j, _ => Undisturbed j → (h.registry.modules.get? q).isSome → j.Omits q

open Journal in
theorem Played.guards {c : Course} (hj : Played c h j h₁) (q : Path) : Guards q c h j h₁ := by
  induction hj with
  | nil | found => exact fun _ _ r m hr => by simp [dispatches] at hr
  | ran | threw | missed | answered | tooDeep => exact fun _ _ => omits_single (by simp)
  | append hj _ ihj ihk =>
    exact fun hu hq => omits_append.mpr ⟨ihj (hu.mono (by simp +contextual)) hq,
      ihk (hu.mono (by simp +contextual)) (hj.kept hq)⟩
  | required _ _ ih => exact fun hu hq => (ih (hu.mono (by simp +contextual)) hq).cons (by simp)
  | code _ ih => exact ih
  | @filling _ _ p n h h₁ _ _ k made _ hk _ ihk =>
    intro hu hp hq
    obtain ⟨w, rfl, rfl, -⟩ := making_of_quiet made (.inr (hu.mono (by simp +contextual)))
    obtain ⟨n', hn'⟩ := Option.isSome_iff_exists.mp hq
    have hpq : p.same q = false := PathMap.not_same_of_get? hp hn'
    have hdispatched : Omits q [⟨.dispatched p n, Host.withModule ⟨h.registry, w⟩ p n⟩] := by
      rintro r m hr
      cases List.mem_singleton.mp hr
      exact hpq
    refine (omits_append.mpr ⟨hdispatched, ?_⟩).cons (by simp)
    refine ihk (hu.mono (by simp +contextual)) ?_
    simpa only [Host.withModule, Registry.insert, PathMap.get?_insert_of_not_same hpq] using hq
  | unmade _ _ _ ih =>
    exact fun hu hq => omits_append.mpr ⟨ih (hu.mono (by simp +contextual)) hq,
      omits_single (by simp)⟩
  | failed hp _ ih =>
    exact fun hu hq => omits_append.mpr ⟨ih (hu.mono (by simp +contextual)) hp hq,
      omits_single (by simp)⟩
  | unmarked hp hj _ _ ihj ihk =>
    exact fun hu hq => omits_append.mpr ⟨ihj (hu.mono (by simp +contextual)) hp hq,
      ihk (hu.mono (by simp +contextual)) (hj.kept hq)⟩
  | completed hp hj _ _ ihj ihk =>
    exact fun hu hq => omits_append.mpr ⟨ihj (hu.mono (by simp +contextual)) hp hq,
      omits_append.mpr ⟨ihk (hu.mono (by simp +contextual)) (hj.kept hq), omits_single (by simp)⟩⟩
  | load _ ih =>
    intro hu hq
    have hbody := ih (hu.mono (by simp +contextual [bracket])) hq
    exact (omits_append.mpr ⟨hbody, omits_single (by simp)⟩).cons (by simp)

/-- A module whose handler has run is registered. -/
theorem Played.filled (hj : Played (.filling realm p m) h j h₁) :
    (h₁.registry.modules.get? p).isSome := by
  cases hj with
  | filling _ _ hk =>
    exact hk.kept (Option.isSome_iff_exists.mpr
      ⟨m, PathMap.get?_insert_of_same (Path.same_refl p)⟩)

/-- What is not registered and not dispatched is not registered later. -/
theorem Chain.get?_of_not_dispatched {g g₁ : Registry} (hj : Chain past g j g₁)
    (hd : ∀ y ∈ j, y.dispatches p = false) (hp : g.modules.get? p = none) :
    g₁.modules.get? p = none := by
  induction j generalizing past g with
  | nil => rwa [show g₁ = g from hj]
  | cons x j ih =>
    refine ih hj.2 (fun y hy => hd y (List.mem_cons_of_mem x hy)) ?_
    rw [hj.1.modules]
    exact x.get?_replay_of_gone hp (hd x List.mem_cons_self)

theorem Moment.dispatches_of_omits (hd : j.Omits p) (hy : y ∈ j) : y.dispatches p = false := by
  obtain ⟨what, g⟩ := y
  cases what with
  | dispatched q m => exact hd q m (List.mem_filterMap.mpr ⟨_, hy, rfl⟩)
  | _ => rfl

/-! ## How failed loads end -/

/-- How a failed load has ended, by the last moment before its return: which of its steps has
failed, and whether its module is registered afterwards. -/
structure Ended (c : Call) (y : Moment) : Prop where
  host : y.host = c.after
  step : y.what = .tooDeep c.path ∨ y.what = .unmade c.path ∨ y.what = .dropped c.path ∨
    ∃ g, y.what = .ran .marking g
  removed : y.what = .tooDeep c.path ∨ y.what = .dropped c.path →
    c.after.registry.modules.get? c.path = none
  unmade : y.what = .unmade c.path → (∀ q m, (q, m) ∈ c.dispatches → q.same c.path = false) →
    c.after.registry.modules.get? c.path = none
  unmarked : ∀ g, y.what = .ran .marking g → (c.after.registry.modules.get? c.path).isSome

/-- If a moment is the return of a failed load, the moment before tells how it has ended. -/
def Closed (past : Journal) (x : Moment) : Prop :=
  ∀ c e, x.what = .returned c → c.result = .error e →
    x.host = c.after ∧ ∃ y, past.getLast? = some y ∧ Ended c y

theorem closed_of_not_returned (hx : ∀ c, x.what ≠ .returned c) : Closed past x :=
  fun c _ hc => absurd hc (hx c)

theorem closed_single (hx : ∀ c, x.what ≠ .returned c) : Every Closed past [x] :=
  ⟨closed_of_not_returned hx, trivial⟩

/-- The failed loads of a piece of a run end as they should. -/
def Closes : Course → Host → Journal → Host → Prop
  | .body _ p r, h, j, h' => (∀ past, Every Closed past j) ∧ ∀ e, r = .error e →
    ∃ y, j.getLast? = some y ∧
      Ended ⟨p, h, r, h', Journal.dispatches j, Journal.completions j⟩ y
  | _, _, j, _ => ∀ past, Every Closed past j

open Recorded in
/-- What is followed ends with a stretch. -/
theorem getLast?_follow {α : Type} {f : Answerer} (part : Part)
    (d : Talk (Except Failure α × Workspace)) (h : Host) :
    ∃ g, (follow part f d h).journal.getLast? =
      some ⟨.ran part g, (follow part f d h).host⟩ := by
  induction d generalizing h with
  | done r => exact ⟨h, rfl⟩
  | ask q w next ih =>
    obtain ⟨g, hg⟩ := ih (f q ⟨h.registry, w⟩).result (f q ⟨h.registry, w⟩).host.workspace
      (f q ⟨h.registry, w⟩).host
    exact ⟨g, by simp [follow, List.getLast?_cons, List.getLast?_append, hg]⟩

open Recorded in
theorem Played.closes {c : Course} (hj : Played c h j h₁) : Closes c h j h₁ := by
  induction hj with
  | nil => exact fun _ => trivial
  | append _ _ ihj ihk => exact fun past => Journal.every_append.mpr ⟨ihj past, ihk _⟩
  | ran | threw | missed | answered => exact fun _ => closed_single (by simp)
  | required _ _ ih => exact fun _ => ⟨closed_of_not_returned (by simp), ih _⟩
  | code _ ih => exact ih
  | filling _ _ _ ihj ihk =>
    exact fun past =>
      Journal.every_append.mpr ⟨ihj past, closed_of_not_returned (by simp), ihk _⟩
  | found => exact ⟨fun _ => trivial, by simp⟩
  | @tooDeep _ p _ h hp =>
    refine ⟨fun _ => closed_single (by simp), fun e _ => ⟨⟨.tooDeep p, h⟩, rfl, ?_⟩⟩
    exact ⟨rfl, .inl rfl, fun _ => hp, by simp, by simp⟩
  | @unmade _ _ p _ _ h₁ _ hp _ hj ih =>
    refine ⟨fun past => Journal.every_append.mpr ⟨ih past, closed_single (by simp)⟩,
      fun e _ => ⟨⟨.unmade p, h₁⟩, by simp, ?_⟩⟩
    refine ⟨rfl, .inr (.inl rfl), by simp, fun _ hd => ?_, by simp⟩
    refine (hj.chains []).get?_of_not_dispatched (fun y hy => ?_) hp
    exact Moment.dispatches_of_omits hd (List.mem_append_left _ hy)
  | @failed _ p _ _ _ h₁ _ _ _ ih =>
    refine ⟨fun past => Journal.every_append.mpr ⟨ih past, closed_single (by simp)⟩,
      fun e _ => ⟨⟨.dropped p, h₁.withoutModule p⟩, by simp, ?_⟩⟩
    exact ⟨rfl, .inr (.inr (.inl rfl)),
      fun _ => PathMap.get?_erase_of_same (Path.same_refl p), by simp, by simp⟩
  | @unmarked f realm p module e h h₁ h₂ j k _ hj made hk ihj ihk =>
    refine ⟨fun past => Journal.every_append.mpr ⟨ihj past, ihk _⟩, fun e _ => ?_⟩
    obtain ⟨g, hg⟩ := getLast?_follow (f := f) .marking
      (Load.setProperty realm module "loaded" (.bool true) h₁.workspace) h₁
    rw [← perform, made] at hg
    refine ⟨⟨.ran .marking g, h₂⟩, by simp [List.getLast?_append, hg], ?_⟩
    exact ⟨rfl, .inr (.inr (.inr ⟨g, rfl⟩)), by simp, by simp, fun _ _ => hk.kept hj.filled⟩
  | completed _ _ _ _ ihj ihk =>
    exact ⟨fun past => Journal.every_append.mpr
      ⟨ihj past, Journal.every_append.mpr ⟨ihk _, closed_single (by simp)⟩⟩, by simp⟩
  | @load realm p r h h₁ j _ ih =>
    obtain ⟨hall, hlast⟩ := ih
    refine fun past => ⟨closed_of_not_returned (by simp),
      Journal.every_append.mpr ⟨hall _, ?_, trivial⟩⟩
    rintro _ e ⟨⟩ he
    obtain ⟨y, hy, hended⟩ := hlast e he
    exact ⟨rfl, y, by simp [List.getLast?_append, List.getLast?_cons, hy], hended⟩

theorem Conducted.closes {o : Operation} (hj : Conducted o h j h₁) (past : Journal) :
    Every Closed past j := by
  cases hj with
  | registered | hooked | edited | missed => trivial
  | entered _ hj hk => exact Journal.every_append.mpr ⟨hj.closes past, hk.closes _⟩
  | executed hj => exact hj.closes past
  | evicted | cleared => exact closed_single (by simp)

/-! ## Sessions -/

/-- A moment tells what is registered. -/
def Replayed (past : Journal) (x : Moment) : Prop :=
  x.host.registry.modules = Journal.replay (past ++ [x])

theorem Chain.replayed {g g₁ : Registry} (hj : Chain past g j g₁)
    (hg : g.modules = Journal.replay past) :
    Every Replayed past j ∧ g₁.modules = Journal.replay (past ++ j) := by
  induction j generalizing past g with
  | nil => exact ⟨trivial, by rw [show g₁ = g from hj, hg, List.append_nil]⟩
  | cons x j ih =>
    have hx : x.host.registry.modules = Journal.replay (past ++ [x]) := by
      rw [hj.1.modules, hg, Journal.replay_append]
      rfl
    obtain ⟨hrest, hlast⟩ := ih hj.2 hx
    exact ⟨⟨hx, hrest⟩, by simpa using hlast⟩

/-- What is neither dispatched nor removed is registered as before. -/
theorem get?_replay_of_spared {b : Journal}
    (hb : ∀ y ∈ b, y.dispatches p = false ∧ y.removes p = false) :
    (Journal.replay (past ++ b)).get? p = (Journal.replay past).get? p := by
  induction b generalizing past with
  | nil => rw [List.append_nil]
  | cons y b ih =>
    have hrest : (Journal.replay ((past ++ [y]) ++ b)).get? p =
        (Journal.replay (past ++ [y])).get? p := ih fun z hz => hb z (List.mem_cons_of_mem y hz)
    obtain ⟨hd, hr⟩ := hb y List.mem_cons_self
    rw [← List.append_cons] at hrest
    rw [hrest, Journal.replay_append]
    obtain ⟨what, g⟩ := y
    cases what with
    | dispatched q n => exact PathMap.get?_insert_of_not_same hd
    | dropped q | evicted q => exact PathMap.get?_erase_of_not_same hr
    | cleared => cases hr
    | _ => rfl

/-- What a failure of a load comes to in a journal.

Every failed load has ended by one of its steps. If loads were nested too deep or the handler has
failed its path is not registered afterwards, and neither is it if its object could not be made
without the path being loaded meanwhile; but a module that could not be marked as loaded stays
registered. The next load of the path dispatches the handler again if the path is not registered,
unless loads are nested too deep for it, and gives the module back without running anything if it
is. -/
structure FailureLaw (j : Journal) : Prop where
  ended : ∀ a x b c e, j = a ++ x :: b → x.what = .returned c → c.result = .error e →
    ∃ y, a.getLast? = some y ∧ Ended c y
  again : ∀ a x b z d c e realm q, j = a ++ x :: (b ++ z :: d) → x.what = .returned c →
    c.result = .error e → (∀ y ∈ b, y.dispatches c.path = false ∧ y.removes c.path = false) →
    z.what = .called realm q → c.path.same q →
    (c.after.registry.modules.get? c.path = none → Quiet realm z.host d →
      Refuses q z.host d ∨ Dispatches q z.host d) ∧
    ∀ m, c.after.registry.modules.get? c.path = some m → GivesBack q m z.host d

namespace Session

theorem closes (ops : Session) (h : Host) (past : Journal) : Every Closed past (ops.journal h) := by
  induction ops generalizing h past with
  | nil => trivial
  | cons o rest ih =>
    exact Journal.every_append.mpr ⟨(o.conducted h).closes past, ih (o.run h) _⟩

theorem replayed (ops : Session) (h : Host) (past : Journal)
    (hh : h.registry.modules = Journal.replay past) : Every Replayed past (ops.journal h) := by
  induction ops generalizing h past with
  | nil => trivial
  | cons o rest ih =>
    rcases (o.conducted h).chain with ⟨e, f, rfl, hj, hrun⟩ | hchain
    · rw [journal, hj, hrun]
      exact ih _ past hh
    · obtain ⟨hj, hlast⟩ := (hchain past).replayed hh
      exact Journal.every_append.mpr ⟨hj, ih (o.run h) _ hlast⟩

/-- In every session a failed load ends as the law says. -/
theorem failure_law (w : World) (ops : Session) : FailureLaw (ops.journal (.start w)) := by
  have hclosed := Journal.every_iff.mp (ops.closes (.start w) [])
  have hmodules := Journal.every_iff.mp (ops.replayed (.start w) [] rfl)
  have hopens := ops.opens (.start w)
  generalize ops.journal (.start w) = j at hclosed hmodules hopens
  refine ⟨fun a x b c e he hx hc => (hclosed a x b he c e hx hc).2, ?_⟩
  intro a x b z d c e realm q he hx hc hb hz hs
  have hreturned : c.after.registry.modules = Journal.replay (a ++ [x]) := by
    rw [← (hclosed a x _ he c e hx hc).1]
    exact hmodules a x _ he
  have he' : j = (a ++ [x] ++ b) ++ z :: d := by simpa using he
  have hcalled : z.host.registry.modules = Journal.replay (a ++ [x] ++ b ++ [z]) :=
    hmodules _ z d he'
  have hsame : z.host.registry.modules.get? q = c.after.registry.modules.get? c.path := by
    rw [hcalled, hreturned, ← PathMap.get?_congr hs, List.append_assoc _ b]
    refine get?_replay_of_spared fun y hy => ?_
    rcases List.mem_append.mp hy with hy | hy
    · exact hb y hy
    · rw [List.mem_singleton.mp hy]
      simp [Moment.dispatches, Moment.removes, hz]
  obtain ⟨hfound, hnew⟩ := hopens.follows_after he realm q hz
  rw [hsame] at hfound hnew
  exact ⟨hnew, hfound⟩

end Session
end LoadHook
