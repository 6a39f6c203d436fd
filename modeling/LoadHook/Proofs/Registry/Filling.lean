import LoadHook.Proofs.Journal.Refusal
import LoadHook.Proofs.Registry.Drafting

/-!
# Loading modules anew

A module that is loaded in a host shows what it shows when it is loaded first, as long as what it
asks for does. So by induction on the modules that ask for one another, no load that was made before
can be told from what comes of a later one.

A first load has depth enough for all that it asks for. A load with any other depth comes to the
same if none of the loads that are nested in it is refused: where one would be, the answer does not
matter, and may as well be the one with depth enough.
-/
namespace LoadHook

open Script (Value RealmRef Ref Heap Eval Key View Alike ground Object)
open Host (homeRealm loadWithin answerWithin)

namespace Host

/-- A module is served by the handler that leaves its exports empty, by the one that reads data into
them, or by the handler of steps, and its steps change nothing but its exports. -/
inductive Served (h : Host) (p : Path) : Prop
  | idle : h.registry.handlerFor p = .inert → Served h p
  | data : h.registry.handlerFor p = .json → Served h p
  | steps : h.registry.handlerFor p = .steps → (∀ step ∈ h.program p, step.Own) → Served h p

end Host

namespace Project

variable {P : Project} {s t s' t' : Site} {p q : Path} {m m' : Ref} {f f' : Host.Answerer}

/-! ## Handlers -/

/-- Reading the file of a module comes to the same in two hosts, and the handlers go on with the
same text. -/
theorem ends_file {α : Type} {Q : Site → Site → α → α → Prop} {k k' : String → Load α}
    (hd : P.Desk p m m' s s')
    (hk : ∀ text, P.host.workspace.world.tree.readText p = .ok text →
      P.Ends s s' Q (s.host.perform f (k text)) (s'.host.perform f' (k' text))) :
    P.Ends s s' Q
      (s.host.perform f (do
        let file ← Load.filename homeRealm m
        k (← Load.readFile file)))
      (s'.host.perform f' (do
        let file ← Load.filename homeRealm m'
        k' (← Load.readFile file))) := by
  obtain ⟨_, _, hb, hb', -⟩ := hd.draft
  have hfile {s : Site} {m : Ref} {v : Value} {f : Host.Answerer} (hb : Bench s p m v) :
      s.host.perform f (Load.filename homeRealm m) = (.ok p, s.host) :=
    Host.perform_of_done (filename_of_holds_path ⟨true, true, true, hb.filename⟩)
  rw [Host.perform_bind, Host.perform_bind, hfile hb, hfile hb']
  dsimp only
  rw [Host.perform_bind, Host.perform_bind]
  cases htext : P.host.workspace.world.tree.readText p with
  | ok text =>
    have hread {s : Site} {f : Host.Answerer} (hs : P.Sound s) :
        s.host.perform f (Load.readFile p) = (.ok text, s.host) :=
      Host.perform_of_done (Load.readFile_of_ok (hs.world ▸ htext))
    rw [hread hd.left, hread hd.right]
    exact hk text htext
  | error cause =>
    have hread {s : Site} {f : Host.Answerer} (hs : P.Sound s) :
        s.host.perform f (Load.readFile p) = (.error (.error (.unreadable p cause)), s.host) :=
      Host.perform_of_done (Load.readFile_of_error (hs.world ▸ htext))
    rw [hread hd.left, hread hd.right]
    exact .stopped hd.left hd.right rfl rfl

/-- The handler of steps fills the module alike in two hosts. -/
theorem ends_steps (hd : P.Desk p m m' s s') (hown : ∀ step ∈ P.host.program p, step.Own)
    (hmet : ∀ step ∈ P.host.program p, ∀ specifier ∈ step.asked,
      P.Met f f' s.busy s'.busy ⟨specifier, p.parent.getD "", homeRealm⟩) :
    P.Ends s s' (fun t t' _ _ => P.Desk p m m' t t')
      (s.host.perform f (Handler.steps homeRealm m))
      (s'.host.perform f' (Handler.steps homeRealm m')) := by
  refine ends_file hd fun text htext => ?_
  unfold Host.program at hown hmet
  rw [htext] at hown hmet
  cases hj : Json.parse text with
  | error fault => exact .stopped hd.left hd.right rfl rfl
  | ok j =>
    simp only [hj] at hown hmet
    exact ends_runAll hd hown hmet

theorem ends_withoutNul (hd : P.Desk p m m' s s') (text : String) :
    P.Ends s s' (fun t t' a a' => P.Desk p m m' t t' ∧ a = a')
      (s.host.perform f (Load.withoutNul text)) (s'.host.perform f' (Load.withoutNul text)) := by
  unfold Load.withoutNul
  by_cases hz : (text.toList.takeWhile (· != '\x00')).length < text.length
  · simp only [hz, if_true]
    exact .stopped hd.left hd.right rfl rfl
  · simp only [hz, if_false]
    exact .still hd.left hd.right ⟨hd, rfl⟩

/-- The handler of data fills the module alike in two hosts. -/
theorem ends_json (hd : P.Desk p m m' s s') :
    P.Ends s s' (fun t t' _ _ => P.Desk p m m' t t')
      (s.host.perform f (Handler.json homeRealm m))
      (s'.host.perform f' (Handler.json homeRealm m')) := by
  refine ends_file hd fun text _ => ?_
  refine (ends_withoutNul hd text).bind fun t t' a a' _ _ ⟨hd, ha⟩ => ?_
  cases ha
  refine (ends_readDraft hd _).bind fun t t' v v' _ _ h => ?_
  exact ends_setExports h.1 h.2

theorem Sound.handlerFor (hs : P.Sound s) (p : Path) :
    s.host.registry.handlerFor p = P.host.registry.handlerFor p := by
  simp only [Registry.handlerFor, Registry.handler?, hs.handlers]

/-- The handler of a module fills it alike in two hosts. -/
theorem ends_handler (hd : P.Desk p m m' s s') (hp : P.host.Served p)
    (hmet : ∀ specifier, P.host.Asks p specifier →
      P.Met f f' s.busy s'.busy ⟨specifier, p.parent.getD "", homeRealm⟩) :
    P.Ends s s' (fun t t' _ _ => P.Desk p m m' t t')
      (s.host.perform f (s.host.registry.handlerFor p homeRealm m))
      (s'.host.perform f' (s'.host.registry.handlerFor p homeRealm m')) := by
  rw [hd.left.handlerFor, hd.right.handlerFor]
  cases hp with
  | idle hinert =>
    rw [hinert]
    exact .still hd.left hd.right hd
  | data hjson =>
    rw [hjson]
    exact ends_json hd
  | steps hsteps hown =>
    have hmet' : ∀ step ∈ P.host.program p, ∀ specifier ∈ step.asked,
        P.Met f f' s.busy s'.busy ⟨specifier, p.parent.getD "", homeRealm⟩ :=
      fun step hs specifier hsp => hmet specifier ⟨hsteps, step, hs, hsp⟩
    rw [hsteps]
    exact ends_steps hd hown hmet'

/-! ## Registering a module -/

/-- The host in which a new module object has been registered, before its handler has run. -/
def opened (s : Site) (p : Path) (m : Ref) (w : Workspace) : Site where
  host := ⟨s.host.registry.insert p m, w⟩
  mine := [m, m + 1]
  outer := s.mine ++ s.outer
  busy := p :: s.busy

/-- The paths of modules are told apart by their components, so each module has one path. -/
def Spelled (P : Project) : Prop := ∀ p q, P.member p → P.member q → p.same q → p = q

section Opened

variable {w w' : Workspace}

/-- The module object and the object of its exports come after all that was in the heap. -/
theorem mem_new (hw : Furnished homeRealm p s.host.workspace m w) :
    ∀ r ∈ [m, m + 1], s.heap.objects.size < r ∧ r < w.heap.objects.size := by
  have hsize : w.heap.objects.size = s.heap.objects.size + 3 := by
    rw [hw.heap]
    exact Heap.size_furnished
  intro r hr
  rw [hw.fresh] at hr
  simp only [List.mem_cons, List.not_mem_nil, or_false] at hr
  change r = s.heap.objects.size + 1 ∨ r = s.heap.objects.size + 1 + 1 at hr
  rw [hsize]
  rcases hr with rfl | rfl
  · exact ⟨Nat.lt_succ_self _, Nat.lt_succ_of_lt (Nat.lt_succ_self _)⟩
  · exact ⟨Nat.lt_succ_of_lt (Nat.lt_succ_self _), Nat.lt_succ_self _⟩

theorem sound_opened (hsp : P.Spelled) (hp : P.member p) (hs : P.Sound s)
    (hw : Furnished homeRealm p s.host.workspace m w) : P.Sound (opened s p m w) := by
  have hkeeps : s.view.Keeps (opened s p m w).view :=
    View.keeps_of_extends hw.old fun r hr => (List.mem_append.mp hr).elim
      (fun hr => .inr (Nat.le_of_lt (mem_new hw r hr).1)) .inl
  refine ⟨hs.grounded.trans hw.old, fun r hr => ?_, hw.world.trans hs.world, hs.handlers,
    fun q n hq hbusy hn => ?_⟩
  · rcases List.mem_append.mp hr with hr | hr
    · exact ⟨Nat.le_trans hs.grounded.size (Nat.le_of_lt (mem_new hw r hr).1), (mem_new hw r hr).2⟩
    · exact ⟨(hs.bounded r hr).1, Nat.lt_of_lt_of_le (hs.bounded r hr).2 hw.old.size⟩
  · rcases PathMap.get?_insert_eq_some hn with ⟨hsame, -⟩ | ⟨-, hold⟩
    · exact absurd (hsp p q hp hq hsame ▸ List.mem_cons_self) hbusy
    · have hstands := hs.stands q n hq (fun hq' => hbusy (List.mem_cons_of_mem _ hq')) hold
      refine hstands.keeps hkeeps (fun hr => ?_) (hw.old.object n hstands.lt_size)
      exact (List.mem_append.mp hr).elim
        (fun hr => Nat.lt_asymm (mem_new hw n hr).1 hstands.lt_size) hstands.made

theorem bench_opened (hs : P.Sound s) (hw : Furnished homeRealm p s.host.workspace m w) :
    Bench (opened s p m w) p m (.obj (m + 1)) := by
  have hnew := mem_new hw
  refine ⟨⟨?_, (hnew m List.mem_cons_self).2, List.mem_cons_self⟩, ?_, hw.exports,
    (hw.own _).trans rfl, hw.unmarked, s.heap.objects.size, (hw.own _).trans rfl, ?_, ?_, ?_⟩
  · exact Nat.le_trans hs.grounded.size (Nat.le_of_lt (hnew m List.mem_cons_self).1)
  · exact congrArg Object.kind hw.object
  · exact Nat.lt_trans (hnew m List.mem_cons_self).1 (hnew m List.mem_cons_self).2
  · exact fun hr => Nat.lt_irrefl _ (hnew _ hr).1
  · have hobject : w.heap.object s.heap.objects.size = s.heap.requireOf homeRealm p := by
      rw [hw.heap]
      exact Heap.object_furnished_require
    exact congrArg Object.kind hobject

theorem desk_opened (hsp : P.Spelled) (hp : P.member p) (hs : P.Sound s) (hs' : P.Sound s')
    (hw : Furnished homeRealm p s.host.workspace m w)
    (hw' : Furnished homeRealm p s'.host.workspace m' w') :
    P.Desk p m m' (opened s p m w) (opened s' p m' w') := by
  refine ⟨sound_opened hsp hp hs hw, sound_opened hsp hp hs' hw', _, _, bench_opened hs hw,
    bench_opened hs' hw', ?_⟩
  have hexports {s : Site} {m : Ref} {w : Workspace} (hs : P.Sound s)
      (hw : Furnished homeRealm p s.host.workspace m w) :
      (opened s p m w).Owns (m + 1) ∧ m + 1 ≠ m ∧
        (opened s p m w).heap.object (m + 1) = ⟨.plain, some Script.objectTop, true, []⟩ := by
    have hnew := mem_new hw (m + 1) (by simp)
    refine ⟨⟨Nat.le_trans hs.grounded.size (Nat.le_of_lt hnew.1), hnew.2, by simp [opened]⟩,
      by simp, hw.empty.trans ?_⟩
    have hrealm : s.host.workspace.heap.realm homeRealm = ground.realm homeRealm :=
      hs.grounded.realm _
    rw [Heap.blank, hrealm, Script.objectTop]
  obtain ⟨ho, hne, hobject⟩ := hexports hs hw
  obtain ⟨ho', hne', hobject'⟩ := hexports hs' hw'
  refine .object (n := 0) ho ho' hne hne' ?_
  rw [hobject, hobject']
  exact ⟨rfl, rfl, ⟨rfl, rfl⟩, .top (.inl rfl), .nil, by rintro ⟨⟩⟩

/-- The host in which the load of a module has ended. -/
def closed (s t : Site) (g : Registry) : Site :=
  { s with host := ⟨g, t.host.workspace⟩ }

/-- What was in the heap before the load is as it was, and none of it has been made by the load. -/
theorem extends_opened (hs : P.Sound s) (hw : Furnished homeRealm p s.host.workspace m w)
    (ht : P.To (opened s p m w) t) :
    s.heap.Extends t.heap ∧ ∀ r < s.heap.objects.size, r ∉ t.mine := by
  have hnot : ∀ r < s.heap.objects.size, r ∉ (opened s p m w).mine := fun r hlt hr =>
    Nat.lt_asymm (mem_new hw r hr).1 hlt
  have hinside : ∀ r < s.heap.objects.size, r < (opened s p m w).heap.objects.size := fun r hlt =>
    Nat.lt_of_lt_of_le hlt hw.old.size
  have hobject : ∀ r < s.heap.objects.size, t.heap.object r = s.heap.object r := fun r hlt =>
    (ht.object r (hinside r hlt) (hnot r hlt)).trans (hw.old.object r hlt)
  exact ⟨⟨Nat.le_trans hw.old.size ht.size, hobject,
    ht.sound.grounded.realms.trans hs.grounded.realms.symm,
    ht.sound.grounded.scopes.trans hs.grounded.scopes.symm⟩, fun r hlt =>
    ht.not_mine (hinside r hlt) (hnot r hlt)⟩

/-- After the load its own objects are no longer being made, and all modules stand for what they are
if the module itself does. -/
theorem to_closed (hs : P.Sound s) (hbusy : ∀ b ∈ s.busy, p.same b = false)
    (hw : Furnished homeRealm p s.host.workspace m w) (ht : P.To (opened s p m w) t) {g : Registry}
    (hg : g.handlers = t.host.registry.handlers)
    (hget : ∀ q, p.same q = false → g.modules.get? q = t.host.registry.modules.get? q)
    (hself : ∀ q n, P.member q → p.same q → g.modules.get? q = some n →
      P.Stands (closed s t g).view q n) : P.To s (closed s t g) := by
  obtain ⟨e, hnot⟩ := extends_opened hs hw ht
  have houter : t.outer = s.mine ++ s.outer := ht.outer
  have hkeeps : t.view.Keeps (closed s t g).view := by
    refine View.keeps_of_subset fun r hr => List.mem_append_right _ ?_
    rw [houter]
    exact hr
  refine ⟨e.size, fun r hlt _ => e.object r hlt, fun _ => id, fun _ => .inl, rfl, rfl,
    fun b hb => ?_, ?_⟩
  · exact (hget b (hbusy b hb)).trans ((ht.kept b (List.mem_cons_of_mem _ hb)).trans
      (PathMap.get?_insert_of_not_same (hbusy b hb)))
  · refine ⟨hs.grounded.trans e, fun r hr => ?_, ht.sound.world, hg.trans ht.sound.handlers,
      fun q n hq hqbusy hn => ?_⟩
    · exact ⟨(hs.bounded r hr).1, Nat.lt_of_lt_of_le (hs.bounded r hr).2 e.size⟩
    · by_cases hsame : p.same q = true
      · exact hself q n hq hsame hn
      · have hsame := Bool.eq_false_iff.mpr hsame
        have hqbusy' : q ∉ t.busy := by
          rw [ht.busy]
          refine fun hmem => (List.mem_cons.mp hmem).elim (fun he => ?_) hqbusy
          rw [he, Path.same_refl] at hsame
          cases hsame
        have hstands := ht.sound.stands q n hq hqbusy' ((hget q hsame).symm.trans hn)
        refine hstands.keeps hkeeps (fun hr => hstands.made ?_) rfl
        refine List.mem_append_right _ ?_
        rw [houter]
        exact hr

end Opened

/-! ## Loading a module -/

/-- The host with a module object marked as loaded. -/
def marked (t : Site) (m : Ref) : Site := t.withHeap (t.heap.mark m) []

theorem Bench.to_marked {v : Value} (ht : P.Sound t) (hb : Bench t p m v) :
    P.To t (marked t m) := by
  have hmark : t.heap.mark m =
      t.heap.withObject m ((t.heap.object m).put loadedKey (.plain (.bool true))) :=
    Heap.modifyObject_eq _ _ _
  rw [marked, hmark]
  exact to_withObject ht hb.owns.making _

/-- A module whose handler has run is marked. -/
theorem populate_of_done {h : Host} {v : Value} (hb : Bench t p m v)
    (hr : h.perform f (h.registry.handlerFor p homeRealm m) = (.ok (), t.host)) :
    h.populate f homeRealm p m = (.ok m, (marked t m).host) := by
  have hmark : t.host.perform f (Load.setProperty homeRealm m "loaded" (.bool true)) =
      (.ok (), (marked t m).host) := Host.perform_of_done (setLoaded_of_marked hb.unmarked)
  rw [Host.populate, hr]
  dsimp only
  rw [hmark]

/-- A module whose handler has failed is removed. -/
theorem populate_of_failed {h g : Host} {e : Failure}
    (hr : h.perform f (h.registry.handlerFor p homeRealm m) = (.error e, g)) :
    h.populate f homeRealm p m = (.error e, { g with registry := g.registry.erase p }) := by
  rw [Host.populate, hr]

/-- What comes of a load is what comes of the first load of the module: its exports show the same,
or it fails with the same error. -/
inductive Loaded (P : Project) (t : Site) (p : Path) : Except Failure Ref → Prop
  | value {m : Ref} : P.Stands t.view p m → Loaded P t p (.ok m)
  | failed {e e₀ : Failure} {g : Host} (err : LoadError) : P.first p = (.error e₀, g) →
      e₀.Leaves g.workspace.heap err → e.Leaves t.heap err → Loaded P t p (.error e)

section Marked

variable {v : Value} {r : Ref}

theorem Bench.own_marked (hb : Bench t p m v) :
    (marked t m).heap.own m exportsKey = some (.plain v) := by
  have hself : (marked t m).heap.object m =
      (t.heap.object m).put loadedKey (.plain (.bool true)) :=
    Heap.object_modifyObject_self _ hb.owns.inside
  rw [Heap.own, hself, Object.own_put_of_ne (by decide)]
  exact hb.exports

/-- When a module has been marked, its exports are seen from outside. -/
theorem sees_marked {mine : List Ref} (hr : t.Owns r) (hmine : r ∉ mine) :
    View.Sees ⟨(marked t m).heap, mine⟩ r :=
  ⟨hr.above, Nat.lt_of_lt_of_eq hr.inside (Heap.size_modifyObject _).symm, hmine⟩

theorem keeps_marked {mine : List Ref} (ht : P.Sound t) (hb : Bench t p m v)
    (hmine : ∀ r ∈ mine, r ∈ t.outer) : t.view.Keeps ⟨(marked t m).heap, mine⟩ :=
  (hb.to_marked ht).keeps.trans (View.keeps_of_subset fun r hr =>
    List.mem_append_right _ (hmine r hr))

end Marked

/-- The exports of a module that has been filled show what they show where it is loaded first. -/
theorem stands_of_desk {mine : List Ref} (hd : P.Desk p m m' t t')
    (hmine : ∀ r ∈ mine, r ∉ t.mine ∧ r ∈ t.outer)
    (hfirst : P.first p = (.ok m', (marked t' m').host)) :
    P.Stands ⟨(marked t m).heap, mine⟩ p m := by
  obtain ⟨v, v', hb, hb', hv⟩ := hd.draft
  refine ⟨fun hm => (hmine m hm).1 hb.owns.making, v, m', _, v', hb.own_marked, hfirst,
    hb'.own_marked, ?_⟩
  cases hv with
  | plain hv => exact ⟨0, hv, rfl⟩
  | @object r r' n ho ho' hne hne' hlike =>
    refine ⟨n + 1, .inr ⟨r, r', rfl, rfl, sees_marked ho fun hr => (hmine r hr).1 ho.making,
      sees_marked ho' (by simp), ?_⟩⟩
    have hobject {t : Site} {r m : Ref} (hne : r ≠ m) :
        (marked t m).heap.object r = t.heap.object r := Heap.object_modifyObject_of_ne _ hne
    change Object.Like _ ((marked t m).heap.object r) ((marked t' m').heap.object r')
    rw [hobject hne, hobject hne']
    exact hlike.mono fun _ _ hu => hu.keeps (keeps_marked hd.left hb fun r hr => (hmine r hr).2)
      (keeps_marked hd.right hb' (by simp))

/-- A project of a fresh host in which modules ask for modules of a lower rank only, so that no
module comes to ask for itself. -/
structure Acyclic (P : Project) : Prop where
  empty : P.host.registry.modules = .empty
  start : P.host.workspace.heap = ground
  spelled : P.Spelled
  served : ∀ p, P.member p → P.host.Served p
  leads : ∀ p specifier q, P.member p → P.host.Asks p specifier →
    P.host.resolve specifier (p.parent.getD "") = .ok q → P.member q ∧ P.rank q < P.rank p

/-- The host before anything is loaded. -/
def origin (P : Project) : Site := ⟨P.host, [], [], []⟩

theorem newModule_opened (hs : P.Sound s) (p : Path) : ∃ m w,
    s.host.perform f (Host.newModule homeRealm p) = (.ok m, ⟨s.host.registry, w⟩) ∧
      Furnished homeRealm p s.host.workspace m w := by
  obtain ⟨m, w, hnew, hw⟩ := newModule_furnished (w := s.host.workspace) p
    ((Script.plainFor_ground s.host.workspace.world).extends hs.grounded)
  exact ⟨m, w, Host.perform_of_done hnew, hw⟩

/-- How what a module asks for is answered when it is loaded first. -/
def answerer (P : Project) (p : Path) : Host.Answerer := answerWithin (2 * P.rank p + 1)

/-- A load from a host comes to what the first load of the module comes to. -/
def Accords (P : Project) (s : Site) (p : Path) (r : Except Failure Ref × Host) : Prop :=
  ∃ t, P.To s t ∧ s.heap.Extends t.heap ∧ r.2 = t.host ∧ Loaded P t p r.1

section Acyclic

variable (hP : P.Acyclic)
include hP

theorem Acyclic.sound_origin : P.Sound P.origin where
  grounded := by
    have hheap : P.origin.heap = ground := hP.start
    rw [hheap]
    exact .refl _
  bounded r hr := by cases hr
  world := rfl
  handlers := rfl
  stands p m _ _ hm := by
    have hempty : P.origin.host.registry.modules = .empty := hP.empty
    rw [hempty] at hm
    cases hm

/-- A module is loaded first by being made and filled. -/
theorem Acyclic.first_eq (p : Path) :
    P.first p = P.host.loadNew (P.answerer p) homeRealm p := by
  rw [first, loadWithin, hP.empty]
  rfl

/-- A module that is not registered is loaded as it is loaded first, as long as what it asks for is
answered as it is answered first. -/
theorem Acyclic.loaded_new (hp : P.member p) (hs : P.Sound s)
    (hbusy : ∀ b ∈ s.busy, p.same b = false)
    (hmet : ∀ specifier, P.host.Asks p specifier →
      P.Met f (P.answerer p) (p :: s.busy) [p]
        ⟨specifier, p.parent.getD "", homeRealm⟩) :
    P.Accords s p (s.host.loadNew f homeRealm p) := by
  obtain ⟨m, w, hnew, hw⟩ := newModule_opened (f := f) hs p
  obtain ⟨m', w', hnew', hw'⟩ :=
    newModule_opened (f := P.answerer p) hP.sound_origin p
  have hload : s.host.loadNew f homeRealm p =
      (opened s p m w).host.populate f homeRealm p m := by
    rw [Host.loadNew, hnew]
    rfl
  have hfirst : P.first p =
      (opened P.origin p m' w').host.populate (P.answerer p) homeRealm p m' := by
    have hnew' : P.host.perform (P.answerer p) (Host.newModule homeRealm p) = _ :=
      hnew'
    rw [hP.first_eq, Host.loadNew, hnew']
    rfl
  have hends := ends_handler (desk_opened hP.spelled hp hs hP.sound_origin hw hw')
    (hP.served p hp) hmet
  rw [hload]
  generalize hr : (opened s p m w).host.perform f _ = r,
    hr' : (opened P.origin p m' w').host.perform _ _ = r' at hends
  cases hends with
  | @value t t' _ _ ht ht' hd =>
    obtain ⟨_, _, hb, hb', -⟩ := hd.draft
    rw [populate_of_done hb hr]
    rw [populate_of_done hb' hr'] at hfirst
    have hmarked := ht.trans (hb.to_marked hd.left)
    have hmine : ∀ r ∈ s.mine ++ s.outer, r ∉ t.mine ∧ r ∈ t.outer := fun r hr =>
      ⟨(extends_opened hs hw ht).2 r (hs.bounded r hr).2, ht.outer ▸ hr⟩
    have hstands := stands_of_desk hd hmine hfirst
    have hself : t.host.registry.modules.get? p = some m :=
      (ht.kept p List.mem_cons_self).trans (PathMap.get?_insert_of_same (Path.same_refl p))
    refine ⟨closed s (marked t m) t.host.registry,
      to_closed hs hbusy hw hmarked rfl (fun _ _ => rfl) (fun q n hq hsame hn => ?_),
      (extends_opened hs hw hmarked).1, rfl, .value hstands⟩
    cases hP.spelled p q hp hq hsame
    cases hself.symm.trans hn
    exact hstands
  | @failed t t' e e' err ht ht' he he' =>
    rw [populate_of_failed hr]
    rw [populate_of_failed hr'] at hfirst
    refine ⟨closed s t (t.host.registry.erase p), to_closed hs hbusy hw ht rfl
      (fun q hq => PathMap.get?_erase_of_not_same hq) (fun q n _ hq hn => ?_),
      (extends_opened hs hw ht).1, rfl, .failed err hfirst he' he⟩
    rw [Registry.erase, PathMap.get?_erase_of_same hq] at hn
    cases hn

end Acyclic

/-! ## Answering requirements -/

theorem Sound.resolve (hs : P.Sound s) (specifier : String) (dir : Path) :
    s.host.resolve specifier dir = P.host.resolve specifier dir := by
  simp only [Host.resolve, Registry.extensions, hs.handlers, hs.world]

/-- What fails is answered by an error object with the message of what the failure leaves. -/
theorem answered_of_failed {load : Host.Loader} {r : Requirement} {h : Host} {e : Failure}
    {err : LoadError} (hr : h.requireWith load f r = (.error e, t.host))
    (hrealm : r.realm = homeRealm) (ht : P.Sound t) (he : e.Leaves t.heap err) :
    ∃ u, P.To t u ∧ t.heap.Extends u.heap ∧ (Host.answerWith load f r h).2 = u.host ∧
      Answered u (.error err.thrownText) (Host.answerWith load f r h).1 := by
  obtain ⟨x, g, hx, ext, hreports⟩ := Load.throwable_of_leaves homeRealm (w := t.host.workspace) he
  have hthrow : t.host.perform f (Load.throwable r.realm e) =
      (.ok (.obj x), (t.withHeap g []).host) := by
    rw [hrealm]
    exact Host.perform_of_done hx
  have hanswer : Host.answerWith load f r h = (.error (.obj x), (t.withHeap g []).host) := by
    simp only [Host.answerWith, hr, hthrow]
  rw [hanswer]
  exact ⟨t.withHeap g [], to_extends ht ext (by simp), ext, rfl, .thrown hreports⟩

section Require

variable {load : Host.Loader} {specifier : String} {dir : Path}

theorem require_of_failed {h : Host} {e : Failure} (hs : P.Sound s)
    (hq : P.host.resolve specifier dir = .ok q) (hr : load homeRealm q s.host = (.error e, h)) :
    s.host.requireWith load f ⟨specifier, dir, homeRealm⟩ = (.error e, h) := by
  rw [Host.requireWith, hs.resolve, hq]
  dsimp only
  rw [hr]

theorem require_of_done {v : Value} (hs : P.Sound s) (hq : P.host.resolve specifier dir = .ok q)
    (hr : load homeRealm q s.host = (.ok m, t.host))
    (hv : t.heap.own m exportsKey = some (.plain v)) :
    s.host.requireWith load f ⟨specifier, dir, homeRealm⟩ = (.ok v, t.host) := by
  rw [Host.requireWith, hs.resolve, hq]
  dsimp only
  rw [hr]
  exact Host.perform_of_done (exports_of_holds ⟨true, true, true, hv⟩)

/-- What asking for a module comes to when it is loaded first: its exports, in the heap that they
are in, or the message of the error in which the load ends. -/
inductive Outcome (P : Project) (p : Path) : Except String (Value × Heap) → Prop
  | value {m : Ref} {g : Host} {u : Value} : P.first p = (.ok m, g) →
      g.workspace.heap.own m exportsKey = some (.plain u) → Outcome P p (.ok (u, g.workspace.heap))
  | failed {e : Failure} {g : Host} {err : LoadError} : P.first p = (.error e, g) →
      e.Leaves g.workspace.heap err → Outcome P p (.error err.thrownText)

theorem Outcome.unique {o o' : Except String (Value × Heap)} (h : P.Outcome p o)
    (h' : P.Outcome p o') : o = o' := by
  cases h with
  | value hfirst hu =>
    cases h' with
    | value hfirst' hu' =>
      cases hfirst.symm.trans hfirst'
      cases hu.symm.trans hu'
      rfl
    | failed hfirst' => cases hfirst.symm.trans hfirst'
  | failed hfirst he =>
    cases h' with
    | value hfirst' => cases hfirst.symm.trans hfirst'
    | failed hfirst' he' =>
      cases hfirst.symm.trans hfirst'
      rw [Load.leaves_unique he he']

/-- Any load tells what the first one comes to. -/
theorem Loaded.outcome {r : Except Failure Ref} (h : Loaded P t p r) : ∃ o, P.Outcome p o := by
  cases h with
  | value hm =>
    obtain ⟨-, v, m₀, g, u, -, hfirst, hu, -⟩ := hm
    exact ⟨_, .value hfirst hu⟩
  | failed err hfirst he => exact ⟨_, .failed hfirst he⟩

/-- A module that is loaded as it is loaded first is answered with what that came to. -/
theorem answered_of_loaded (hs : P.Sound s) (hq : P.host.resolve specifier dir = .ok q)
    (h : P.To s t) (ext : s.heap.Extends t.heap) (hhost : (load homeRealm q s.host).2 = t.host)
    (hloaded : Loaded P t q (load homeRealm q s.host).1) :
    ∃ u o, P.Outcome q o ∧ P.To s u ∧ s.heap.Extends u.heap ∧
      (Host.answerWith load f ⟨specifier, dir, homeRealm⟩ s.host).2 = u.host ∧
      Answered u o (Host.answerWith load f ⟨specifier, dir, homeRealm⟩ s.host).1 := by
  generalize hr : load homeRealm q s.host = loaded at hhost hloaded
  obtain ⟨r, _⟩ := loaded
  cases hhost
  cases hloaded with
  | value hm =>
    obtain ⟨-, v, m₀, g, u, hv, hfirst, hu, hlike⟩ := hm
    have hanswer : Host.answerWith load f ⟨specifier, dir, homeRealm⟩ s.host =
        (.ok v, t.host) := by
      rw [Host.answerWith, require_of_done hs hq hr hv]
    rw [hanswer]
    exact ⟨t, _, .value hfirst hu, h, ext, rfl, .value hlike⟩
  | failed err hfirst he₀ he =>
    obtain ⟨u, h', ext', hanswer⟩ :=
      answered_of_failed (require_of_failed (f := f) hs hq hr) rfl h.sound he
    exact ⟨u, _, .failed hfirst he₀, h.trans h', ext.trans ext', hanswer⟩

end Require

section Acyclic

variable {specifier : String} (hP : P.Acyclic)
include hP

/-- What a module asks for has one answer: any load that comes to what the first load comes to gives
it. -/
theorem Acyclic.answers (hp : P.member p) (hasks : P.host.Asks p specifier)
    (houtcome : ∀ q, P.member q → P.rank q < P.rank p → ∃ o, P.Outcome q o) :
    ∃ first, ∀ {s : Site} {load : Host.Loader} {f : Host.Answerer}, P.Sound s →
      (∀ q, P.host.resolve specifier (p.parent.getD "") = .ok q →
        P.Accords s q (load homeRealm q s.host)) →
      ∃ t, P.To s t ∧ s.heap.Extends t.heap ∧
        (Host.answerWith load f ⟨specifier, p.parent.getD "", homeRealm⟩ s.host).2 = t.host ∧
        Answered t first
          (Host.answerWith load f ⟨specifier, p.parent.getD "", homeRealm⟩ s.host).1 := by
  cases hresolve : P.host.resolve specifier (p.parent.getD "") with
  | error e =>
    refine ⟨.error e.thrownText, fun {s load f} hs _ => ?_⟩
    have hrequire : s.host.requireWith load f ⟨specifier, p.parent.getD "", homeRealm⟩ =
        (.error (.error e), s.host) := by
      rw [Host.requireWith, hs.resolve, hresolve]
    exact answered_of_failed hrequire rfl hs rfl
  | ok q =>
    obtain ⟨hq, hrank⟩ := hP.leads p specifier q hp hasks hresolve
    obtain ⟨first, hfirst⟩ := houtcome q hq hrank
    refine ⟨first, fun {s load f} hs hload => ?_⟩
    obtain ⟨t, h, ext, hhost, hloaded⟩ := hload q rfl
    obtain ⟨u, first', hfirst', h', ext', hanswer⟩ :=
      answered_of_loaded (f := f) hs hresolve h ext hhost hloaded
    cases hfirst.unique hfirst'
    exact ⟨u, h', ext', hanswer⟩

omit hP in
/-- A registered module that is not being loaded stands for what its first load comes to. -/
theorem accords_found {depth : Nat} (hp : P.member p) (hs : P.Sound s)
    (hbusy : ∀ b ∈ s.busy, P.member b ∧ P.rank p < P.rank b)
    (hm : s.host.registry.modules.get? p = some m) :
    P.Accords s p (loadWithin depth homeRealm p s.host) := by
  have hp' : p ∉ s.busy := fun hmem => Nat.lt_irrefl _ (hbusy p hmem).2
  rw [Host.loadWithin_of_registered hm]
  exact ⟨s, .refl hs, .refl _, rfl, .value (hs.stands p m hp hp' hm)⟩

/-- A module asks for nothing of which the load is in progress. -/
theorem Acyclic.not_busy (hp : P.member p)
    (hbusy : ∀ b ∈ s.busy, P.member b ∧ P.rank p < P.rank b) :
    ∀ b ∈ s.busy, p.same b = false := fun b hb => Bool.eq_false_iff.mpr fun hsame => by
  have hbp := hbusy b hb
  rw [← hP.spelled p b hp hbp.1 hsame] at hbp
  exact Nat.lt_irrefl _ hbp.2

omit hP in
/-- What a module of a lower rank asks for is not among the loads in progress. -/
theorem busy_of_lower {busy : List Path} (hp : P.member p) (hrank : P.rank q < P.rank p)
    (hbusy : ∀ b ∈ busy, P.member b ∧ P.rank p < P.rank b) :
    ∀ b ∈ p :: busy, P.member b ∧ P.rank q < P.rank b :=
  List.forall_mem_cons.mpr
    ⟨⟨hp, hrank⟩, fun b hb => ⟨(hbusy b hb).1, Nat.lt_trans hrank (hbusy b hb).2⟩⟩

/-- With depth enough every load of a module comes to what its first load comes to. -/
theorem Acyclic.accords (hp : P.member p) {depth : Nat} (hdepth : 2 * P.rank p + 2 ≤ depth)
    (hs : P.Sound s) (hbusy : ∀ b ∈ s.busy, P.member b ∧ P.rank p < P.rank b) :
    P.Accords s p (loadWithin depth homeRealm p s.host) := by
  -- by induction on the rank: what the module asks for is of a lower one
  induction hn : P.rank p using Nat.strong_induction_on generalizing p depth s with
  | _ n ih =>
    subst hn
    cases hm : s.host.registry.modules.get? p with
    | some m => exact accords_found hp hs hbusy hm
    | none =>
      obtain ⟨k, rfl⟩ := Nat.exists_eq_add_of_le' (Nat.le_of_add_left_le hdepth)
      have hload : loadWithin (k + 2) homeRealm p s.host =
          s.host.loadNew (answerWithin (k + 1)) homeRealm p := by
        rw [loadWithin, hm]
      have houtcome : ∀ q, P.member q → P.rank q < P.rank p → ∃ o, P.Outcome q o :=
        fun q hq hrank => by
          obtain ⟨_, -, -, -, hloaded⟩ :=
            ih _ hrank hq (Nat.le_refl _) hP.sound_origin (by simp [origin]) rfl
          exact hloaded.outcome
      rw [hload]
      refine hP.loaded_new hp hs (hP.not_busy hp hbusy) fun specifier hasks => ?_
      obtain ⟨first, hfirst⟩ := hP.answers hp hasks houtcome
      have hanswers {n : Nat} {busy : List Path} (hn : 2 * P.rank p ≤ n)
          (hbusy : ∀ b ∈ busy, P.member b ∧ P.rank p < P.rank b) :
          P.Answers (answerWithin (n + 1)) (p :: busy)
            ⟨specifier, p.parent.getD "", homeRealm⟩ first := by
        intro t ht htb
        refine hfirst ht fun q hq => ?_
        obtain ⟨hq, hrank⟩ := hP.leads p specifier q hp hasks hq
        exact ih _ hrank hq (by omega) ht (htb ▸ busy_of_lower hp hrank hbusy) rfl
      exact ⟨first, hanswers (by omega) hbusy, hanswers (Nat.le_refl _) (by simp)⟩

/-- Where no load is refused a load comes to what the first load of the module comes to, however
deep loads may be nested. -/
theorem Acyclic.accords_unrefused {n : Nat} (hp : P.member p) (hs : P.Sound s)
    (hbusy : ∀ b ∈ s.busy, P.member b ∧ P.rank p < P.rank b)
    (hu : (Recorded.loadWithin (2 * n) homeRealm p s.host).journal.Unrefused) :
    P.Accords s p (loadWithin (2 * n) homeRealm p s.host) := by
  induction n generalizing p s with
  | zero =>
    obtain ⟨m, hm⟩ := Recorded.isSome_of_unrefused hu
    exact accords_found hp hs hbusy hm
  | succ n ih =>
    cases hm : s.host.registry.modules.get? p with
    | some m => exact accords_found hp hs hbusy hm
    | none =>
      -- an answer in which a load is refused may as well be the first one
      let f := Recorded.answerWithin (2 * n + 1)
      let g := Recorded.unlessRefused f (Recorded.answerWithin (2 * P.rank p + 1))
      have hload : loadWithin (2 * (n + 1)) homeRealm p s.host =
          s.host.loadNew (fun q h => (g q h).outcome) homeRealm p :=
        Recorded.loadWithin_unlessRefused hm hu
      rw [hload]
      refine hP.loaded_new hp hs (hP.not_busy hp hbusy) fun specifier hasks => ?_
      obtain ⟨first, hfirst⟩ := hP.answers hp hasks fun q hq _ => by
        obtain ⟨_, -, -, -, hloaded⟩ :=
          hP.accords hq (Nat.le_refl _) hP.sound_origin (by simp [origin])
        exact hloaded.outcome
      have hanswer {busy : List Path} (hbusy : ∀ b ∈ busy, P.member b ∧ P.rank p < P.rank b) :
          P.Answers (P.answerer p) (p :: busy) ⟨specifier, p.parent.getD "", homeRealm⟩ first := by
        intro t ht htb
        refine hfirst ht fun q hq => ?_
        obtain ⟨hq, hrank⟩ := hP.leads p specifier q hp hasks hq
        exact hP.accords hq (by omega) ht (htb ▸ busy_of_lower hp hrank hbusy)
      refine ⟨first, fun t ht htb => ?_, hanswer (by simp)⟩
      by_cases hq : (f ⟨specifier, p.parent.getD "", homeRealm⟩ t.host).journal.Unrefused
      · have hg : g ⟨specifier, p.parent.getD "", homeRealm⟩ t.host = f _ t.host := if_pos hq
        simp only [hg, f, (Recorded.outcome_within (2 * n + 1)).2 _ _]
        refine hfirst ht fun q hresolve => ?_
        obtain ⟨hmember, hrank⟩ := hP.leads p specifier q hp hasks hresolve
        refine ih hmember ht (htb ▸ busy_of_lower hp hrank hbusy) (hq.mono fun x hx => ?_)
        exact (Recorded.load_prefix_answerWith (ht.resolve _ _ ▸ hresolve)).subset hx
      · have hg : g ⟨specifier, p.parent.getD "", homeRealm⟩ t.host =
            Recorded.answerWithin (2 * P.rank p + 1) _ t.host := if_neg hq
        simp only [hg, (Recorded.outcome_within (2 * P.rank p + 1)).2 _ _]
        exact hanswer hbusy t ht htb

/-- So does a load in the midst of loads. -/
theorem Acyclic.accords_load (hp : P.member p) (hs : P.Sound s)
    (hbusy : ∀ b ∈ s.busy, P.member b ∧ P.rank p < P.rank b)
    (hu : (Recorded.load homeRealm p s.host).journal.Unrefused) :
    P.Accords s p (Host.load homeRealm p s.host) := by
  have hlimit : Host.depthLimit = 2 * (Host.depthLimit / 2) := by decide
  rw [Recorded.load, hlimit] at hu
  rw [Host.load, hlimit]
  exact hP.accords_unrefused hp hs hbusy hu

end Acyclic

end Project
end LoadHook
