import LoadHook.Compile.StandIn
import LoadHook.Proofs.Hook.Dispatch
import LoadHook.Proofs.Module.Asking
import LoadHook.Proofs.Module.Bindings

/-!
# Hooks whose outputs ask for modules

Where hooks serve all files, and all that is compiled does no more than ask for modules, every run
keeps all realms neutral, whatever is compiled, taken from a cache, asked for in a circle, or fails.
`Stocked` says so of a host and of its hooks, and `Session.passing` that the names of a module mean
nothing special at any moment of a session. The files may change, as long as what can be read at
the outputs stays such a script.
-/
namespace LoadHook

open Script (Value RealmRef Ref Heap Eval)
open Host (homeRealm)

variable {T : FileTree → Prop} {α β : Type} {number : Nat} {realm : RealmRef} {s o p : Path}
  {m f : Ref} {w w' w'' : Workspace}

/-! ## What is compiled -/

/-- Whatever is read at a path in trees of a kind asks for modules and does nothing else. -/
def AsksOnly (T : FileTree → Prop) (o : Path) : Prop :=
  ∀ t text, T t → t.readText o = .ok text → Script.asksOnly text

/-- A toolchain keeps to trees of a kind, and all its scripts only ask for modules in them. -/
structure Toolchain.Emits (T : FileTree → Prop) (toolchain : Toolchain) : Prop where
  tree : ∀ n s config w, T w.tree → T (toolchain n s config w).2.tree
  scripts : ∀ n s config w e w' o, T w.tree → toolchain n s config w = (.ok e, w') →
    selectScript e s = .ok o → AsksOnly T o

/-- All that is compiled through a hook, now or before, only asks for modules. -/
structure Hook.Emits (T : FileTree → Prop) (k : Hook) : Prop where
  toolchain : k.toolchain.Emits T
  known : ∀ s o, k.cache.get? s = some o → AsksOnly T o

theorem Toolchain.Emits.compileFile {toolchain : Toolchain} {w : World}
    (ht : toolchain.Emits T) (hw : T w.tree) (n : Nat) (s : Path) (name : String) (debug : Bool) :
    T (LoadHook.compileFile toolchain n s name debug w).world.tree ∧
      ∀ o, (LoadHook.compileFile toolchain n s name debug w).result = .ok o → AsksOnly T o := by
  rcases Hook.compileFile_cases toolchain n s name debug w with
    ⟨e, hr, htree⟩ | ⟨config, w₁, hw₁, he⟩
  · rw [htree, hr]
    exact ⟨hw, nofun⟩
  · rw [he, Hook.tree_settle]
    refine ⟨ht.tree _ _ _ _ (hw₁ ▸ hw), fun o ho => ?_⟩
    cases hrun : toolchain (n + 1) s config w₁ with
    | mk answer w₂ =>
      rw [hrun] at ho
      cases answer with
      | error e => cases ho
      | ok e => exact ht.scripts _ _ _ _ _ _ _ (hw₁ ▸ hw) hrun ho

namespace Hook.Emits

variable {k k' : Hook} {w w' : World} {c : Choice}

/-- What a hook chooses only asks for modules. -/
theorem choose (hk : k.Emits T) (hw : T w.tree) (hc : k.choose s w = .ok (c, k', w')) :
    k'.Emits T ∧ T w'.tree ∧ ∀ o, c = .run o → AsksOnly T o := by
  rcases choose_cases hc with he | ⟨o, ho, he⟩
  · obtain ⟨htree, hscript⟩ := hk.toolchain.compileFile hw k.runs s k.settings.configFileName
      (k.settings.debugEnabled w)
    rcases compile_cases k s w with ⟨o, stats, hr, -, hcompile⟩ | ⟨text, stats, -, hcompile⟩ <;>
      cases he.trans hcompile
    · exact ⟨⟨hk.toolchain, hk.known⟩, htree, by rintro _ ⟨⟩; exact hscript o hr⟩
    · exact ⟨⟨hk.toolchain, hk.known⟩, htree, nofun⟩
  · cases he
    exact ⟨⟨hk.toolchain, hk.known⟩, hw, by rintro _ ⟨⟩; exact hk.known s o ho⟩

theorem remember (hk : k.Emits T) (ho : AsksOnly T o) (s : Path) : (k.remember s o).Emits T where
  toolchain := hk.toolchain
  known s' o' ho' := by
    rcases PathMap.get?_insert_eq_some ho' with ⟨-, rfl⟩ | ⟨-, hold⟩
    · exact ho
    · exact hk.known s' o' hold

end Hook.Emits

/-! ## Workspaces -/

/-- All realms of a workspace are neutral, the files are of a kind, and all that is compiled only
asks for modules. -/
structure Workspace.Stocked (T : FileTree → Prop) (w : Workspace) : Prop where
  neutral : w.heap.Neutral
  tree : T w.world.tree
  hooks : ∀ n k, Hook.at? w n = some k → k.Emits T

/-- A stocked workspace goes on from another one. -/
structure Workspace.Goes (T : FileTree → Prop) (w w' : Workspace) : Prop where
  heap : w.heap.Retains w'.heap
  stocked : w'.Stocked T

namespace Workspace

theorem Stocked.withHeap (hw : w.Stocked T) {h : Heap} (hh : h.Neutral) :
    Workspace.Stocked T { w with heap := h } := ⟨hh, hw.tree, hw.hooks⟩

theorem Stocked.withWorld (hw : w.Stocked T) {world : World} (ht : T world.tree) :
    Workspace.Stocked T { w with world := world } := ⟨hw.neutral, ht, hw.hooks⟩

theorem Stocked.put (hw : w.Stocked T) {k : Hook} (hk : k.Emits T) :
    (Hook.put w number k).Stocked T where
  neutral := hw.neutral
  tree := hw.tree
  hooks n k' hk' := by
    by_cases hn : number = n
    · subst hn
      cases hold : Hook.at? w number with
      | none =>
        rw [Hook.at?, Hook.put, Array.getElem?_modify, if_pos rfl] at hk'
        rw [Hook.at?] at hold
        rw [hold] at hk'
        cases hk'
      | some _ => exact Option.some.inj ((Hook.at?_put hold k).symm.trans hk') ▸ hk
    · exact hw.hooks n k' (by rwa [Hook.at?_put_of_ne hn] at hk')

theorem Goes.refl (hw : w.Stocked T) : w.Goes T w := ⟨.refl w.heap, hw⟩

theorem Goes.trans (a : w.Goes T w') (b : w'.Goes T w'') : w.Goes T w'' :=
  ⟨a.heap.trans b.heap, b.stocked⟩

theorem Goes.of_continues (hw : w.Stocked T) {h : Heap} (hh : w.heap.Continues h) :
    w.Goes T { w with heap := h } := ⟨hh.toRetains, hw.withHeap hh.neutral⟩

end Workspace

/-! ## Steps of a load -/

namespace Load

/-- A step of a load and whoever answers keep the workspace stocked. Modules are asked for from
realms that there are, and what is thrown in answer can be told. -/
def asking (T : FileTree → Prop) : Protocol Requirement (Except Value Value) Workspace where
  goes := Workspace.Goes T
  asks w q := q.realm < w.heap.realms.size
  hears w a := ∀ v, a = .error v → (Failure.thrown v).Told w.heap
  trans := Workspace.Goes.trans

/-- A step ends with a value, or with what can be told. -/
def Tells (w : Workspace) (r : Except Failure α) : Prop := ∀ e, r = .error e → e.Told w.heap

theorem tells_ok {a : α} : Tells w (.ok a) := nofun

/-- A step of a load keeps to the protocol. -/
def Asking (T : FileTree → Prop) (x : Load α) (w : Workspace) : Prop :=
  (asking T).Obeys Tells w (x w)

namespace Asking

theorem done {a : α} {x : Load α} (hx : x w = .done (.ok a, w')) (hw : w.Goes T w') :
    Asking T x w := by
  rw [Asking, hx]
  exact .done hw nofun

theorem failed {e : LoadError} {x : Load α} (hw : w.Stocked T)
    (hx : x w = .done (.error (.error e), w)) : Asking T x w := by
  rw [Asking, hx]
  refine .done (.refl hw) ?_
  rintro _ ⟨⟩
  exact .inl ⟨e, rfl⟩

theorem bind {x : Load α} {k : α → Load β} (hx : Asking T x w)
    (hk : ∀ a w', w.Goes T w' → Asking T (k a) w') : Asking T (x >>= k) w := by
  refine Protocol.Obeys.bind hx fun r w' hgo hr => ?_
  cases r with
  | ok a => exact hk a w' hgo
  | error e => exact .done (.refl hgo.stocked) (by rintro _ ⟨⟩; exact hr e rfl)

/-- Going on after a step that has ended. -/
theorem after {a : α} {x : Load α} {k : α → Load β} (hx : x w = .done (.ok a, w'))
    (hw : w.Goes T w') (hk : Asking T (k a) w') : Asking T (x >>= k) w := by
  rw [Asking, bind_of_done hx]
  exact Protocol.Obeys.lead hk hw

end Asking

/-- What a script asks for a step asks for. -/
theorem asking_ofRun {h : Heap} {d : Script.Run (Except Script.Abrupt α × Heap)}
    (hd : Script.asking.Obeys Script.Tells h d) (hw : w.Stocked T) (hh : w.heap = h) :
    (asking T).Obeys Tells w (ofRun w d) := by
  induction hd generalizing w with
  | @done _ _ r hgo hr =>
    refine .done (.of_continues hw (hh ▸ hgo)) ?_
    intro e he
    cases r with
    | ok a => cases he
    | error cause =>
      cases he
      exact hr cause rfl
  | @ask _ _ q next hgo hq _ ih =>
    obtain ⟨specifier, dir, realm, rfl, hrealm⟩ := hq
    refine .ask (.of_continues hw (hh ▸ hgo)) hrealm fun a w' hw' ha => ?_
    exact ih a w'.heap ⟨hw'.heap, hw'.stocked.neutral⟩ ha hw'.stocked rfl

end Load

/-! ## The handler of a hook -/

/-- An output that only asks for modules is run as the body of a module. -/
theorem Sandbox.asking_run {exports : Value} (hw : w.Stocked T)
    (hrealm : realm < w.heap.realms.size) (hm : Made w.heap p m f)
    (he : w.heap.Holds m exportsKey exports) (ho : AsksOnly T o) :
    Load.Asking T (run realm o m) w := by
  unfold run
  cases htext : w.world.tree.readText o with
  | error cause =>
    exact .failed hw (Load.bind_of_failed (Load.readFile_of_error htext))
  | ok text =>
    have hasks := ho _ text hw.tree htext
    obtain ⟨own, hkind⟩ := hm.kind
    obtain ⟨h, hprepare, hgo, hfrom⟩ :=
      prepare_continues hw.neutral hrealm (hm.furnished he) hkind o
    have hprepared : w.Goes T { w with heap := h } := .of_continues hw hgo
    have hnul : '\x00' ∉ text.toList := by
      rw [Script.asksOnly, Bool.and_eq_true, Bool.not_eq_true'] at hasks
      exact fun hmem => Bool.eq_false_iff.mp hasks.1 (List.contains_iff_mem.mpr hmem)
    refine .after (Load.readFile_of_ok htext) (.refl hw) (.after hprepare hprepared ?_)
    refine .after (Load.withoutNul_of_notMem hnul) (.refl hprepared.stocked) ?_
    exact Load.asking_ofRun (Script.asking_runText hasks hgo.neutral hfrom) hprepared.stocked rfl

namespace Hook

variable {exports : Value}

/-- A hook runs what it has chosen and remembers it. -/
theorem asking_finish (hw : w.Stocked T) (hrealm : realm < w.heap.realms.size)
    (hm : Sandbox.Made w.heap p m f) (he : w.heap.Holds m exportsKey exports)
    (ho : AsksOnly T o) : Load.Asking T (finish number realm m s o) w := by
  refine (Sandbox.asking_run hw hrealm hm he ho).bind fun _ w' hgo => ?_
  cases hk : at? w' number with
  | none =>
    have hleft : rememberFor number s o w' = .done (.ok (), w') := by
      simp only [rememberFor, Load.change, hk]
    exact .done hleft (.refl hgo.stocked)
  | some k =>
    have hput : rememberFor number s o w' = .done (.ok (), put w' number (k.remember s o)) := by
      simp only [rememberFor, Load.change, hk]
    exact .done hput ⟨.refl _, hgo.stocked.put ((hgo.stocked.hooks number k hk).remember ho s)⟩

/-- The handler of a hook keeps the workspace stocked. -/
theorem asking_handler (number : Nat) (hw : w.Stocked T) (hrealm : realm < w.heap.realms.size)
    (hm : Sandbox.Made w.heap p m f) (he : w.heap.Holds m exportsKey exports) :
    Load.Asking T (handler number realm m) w := by
  rw [handler_eq]
  refine .after (filename_of_holds_path hm.filename) (.refl hw) ?_
  cases hk : at? w number with
  | none =>
    have hskip : chooseFor number p w = .done (.ok .skip, w) := by
      simp only [chooseFor, hk]
    exact .after hskip (.refl hw) (.done rfl (.refl hw))
  | some k =>
    cases hc : k.choose p w.world with
    | error cause => exact .failed hw (serve_of_error hk hc)
    | ok r =>
      obtain ⟨c, k', world⟩ := r
      obtain ⟨hk', htree, hscript⟩ := (hw.hooks number k hk).choose hw.tree hc
      cases c with
      | skip =>
        exact .done (serve_of_skip hk hc) ⟨.refl _, (hw.withWorld htree).put hk'⟩
      | run o =>
        have htold : T (world.report .info .hook ("  Running " ++ o.text)).tree := htree
        have hstart : w.Goes T (starting number w k' world o) :=
          ⟨.refl _, (hw.withWorld htold).put hk'⟩
        rw [Load.Asking, serve_of_choose hk hc]
        refine Protocol.Obeys.lead (P := Load.asking T) ?_ hstart
        exact asking_finish hstart.stocked hrealm hm he (hscript o rfl)

end Hook

/-! ## Hosts -/

/-- A host in which hooks serve all files, and in which all that is compiled only asks for
modules. All that is registered holds its exports. -/
structure Host.Stocked (T : FileTree → Prop) (h : Host) : Prop where
  workspace : h.workspace.Stocked T
  handlers : ∀ p, ∃ n, h.registry.handlerFor p = Hook.handler n
  modules : ∀ p m, h.registry.modules.get? p = some m →
    ∃ v, h.workspace.heap.Holds m exportsKey v

/-- A part of a run leads from a host to another one, which is stocked as well, and the names of a
module mean nothing special in it. -/
structure Passing (T : FileTree → Prop) (h g : Host) (j : Journal) : Prop where
  stocked : g.Stocked T
  heap : h.workspace.heap.Retains g.workspace.heap
  plain : j.Plain

section Hosts

variable {h g i : Host} {j k : Journal}

namespace Host.Stocked

/-- A step keeps to what there was. -/
theorem step (hh : h.Stocked T) (hw : h.workspace.Goes T w) : Host.Stocked T ⟨h.registry, w⟩ where
  workspace := hw.stocked
  handlers := hh.handlers
  modules p m hm := (hh.modules p m hm).imp fun _ hv => hw.heap.holds hv (by decide)

theorem withModule (hh : h.Stocked T) {v : Value} (hv : h.workspace.heap.Holds m exportsKey v)
    (p : Path) : (h.withModule p m).Stocked T where
  workspace := hh.workspace
  handlers := hh.handlers
  modules p' m' hm' := by
    rcases PathMap.get?_insert_eq_some hm' with ⟨-, rfl⟩ | ⟨-, hold⟩
    · exact ⟨v, hv⟩
    · exact hh.modules p' m' hold

theorem withoutModule (hh : h.Stocked T) (p : Path) : (h.withoutModule p).Stocked T where
  workspace := hh.workspace
  handlers := hh.handlers
  modules p' m' hm' := hh.modules p' m' (PathMap.get?_erase_eq_some hm').2

theorem clear (hh : h.Stocked T) : h.clear.Stocked T where
  workspace := hh.workspace
  handlers := hh.handlers
  modules _ _ hm := by cases hm

end Host.Stocked

namespace Passing

theorem refl (hh : h.Stocked T) : Passing T h h [] :=
  ⟨hh, .refl _, fun _ hx => absurd hx List.not_mem_nil⟩

theorem trans (a : Passing T h g j) (b : Passing T g i k) : Passing T h i (j ++ k) where
  stocked := b.stocked
  heap := a.heap.trans b.heap
  plain x hx := (List.mem_append.mp hx).elim (a.plain x) (b.plain x)

/-- A moment at which no load begins. -/
theorem moment (what : Happening) (hg : g.Stocked T)
    (hh : h.workspace.heap.Retains g.workspace.heap) (hwhat : ∀ realm p, what ≠ .called realm p) :
    Passing T h g [⟨what, g⟩] where
  stocked := hg
  heap := hh
  plain x hx realm p hx' := by
    rw [List.mem_singleton.mp hx] at hx'
    exact absurd hx' (hwhat realm p)

/-- A load begins for code of a realm that there is. -/
theorem called (hh : h.Stocked T) (hrealm : realm < h.workspace.heap.realms.size) (p : Path) :
    Passing T h h [⟨.called realm p, h⟩] where
  stocked := hh
  heap := .refl _
  plain x hx realm' p' hx' _ := by
    rw [List.mem_singleton.mp hx] at hx' ⊢
    cases hx'
    exact hh.workspace.neutral.plain realm hrealm

theorem ran (part : Part) (hh : h.Stocked T) (hw : h.workspace.Goes T w) :
    Passing T h ⟨h.registry, w⟩ [⟨.ran part h, ⟨h.registry, w⟩⟩] :=
  .moment _ (hh.step hw) hw.heap (by simp)

end Passing

/-- How a part of a run ends: if it fails, then with what can be told. -/
structure Finishes (T : FileTree → Prop) (h : Host) (r : Record (Except Failure α)) : Prop where
  passing : Passing T h r.host r.journal
  tells : Load.Tells r.host.workspace r.result

/-- What is loaded holds its exports. -/
def GivesExports (r : Record (Except Failure Ref)) : Prop :=
  ∀ m, r.result = .ok m → ∃ v, r.host.workspace.heap.Holds m exportsKey v

namespace Recorded

variable {f : Answerer} {l : Loader}

/-- Answers keep hosts stocked, and what is thrown can be told. -/
def AnswersStocked (T : FileTree → Prop) (f : Answerer) : Prop :=
  ∀ q h, h.Stocked T → q.realm < h.workspace.heap.realms.size →
    Passing T h (f q h).host (f q h).journal ∧
      ∀ v, (f q h).result = .error v → (Failure.thrown v).Told (f q h).host.workspace.heap

/-- Loads keep hosts stocked. -/
def LoadsStocked (T : FileTree → Prop) (l : Loader) : Prop :=
  ∀ realm p h, h.Stocked T → realm < h.workspace.heap.realms.size →
    Finishes T h (l realm p h) ∧ GivesExports (l realm p h)

/-! ## Loads -/

/-- A step that keeps to the protocol, whatever it asks for. -/
theorem finishes_follow (hf : AnswersStocked T f) (part : Part)
    {t : Talk (Except Failure α × Workspace)} (ht : (Load.asking T).Obeys Load.Tells w t)
    (hh : h.Stocked T) (hw : h.workspace = w) : Finishes T h (follow part f t h) := by
  induction ht generalizing h with
  | done hgo hr => exact ⟨.ran part hh (hw ▸ hgo), hr⟩
  | @ask _ w₁ q next hgo hq _ ih =>
    have hran : Passing T h ⟨h.registry, w₁⟩ [⟨.ran part h, ⟨h.registry, w₁⟩⟩] :=
      .ran part hh (hw ▸ hgo)
    have hasked : Passing T ⟨h.registry, w₁⟩ ⟨h.registry, w₁⟩ [⟨.asked part q, ⟨h.registry, w₁⟩⟩] :=
      .moment _ hran.stocked (.refl _) (by simp)
    obtain ⟨hanswer, hthrown⟩ := hf q ⟨h.registry, w₁⟩ hran.stocked hq
    have hrest := ih _ _ ⟨hanswer.heap, hanswer.stocked.workspace⟩ hthrown hanswer.stocked rfl
    exact ⟨(hran.trans (hasked.trans hanswer)).trans hrest.passing, hrest.tells⟩

/-- A module that is registered is filled, or removed again. -/
theorem finishes_populate (hf : AnswersStocked T f) (hh : h.Stocked T)
    (hrealm : realm < h.workspace.heap.realms.size) {r : Ref} {v : Value} {b : Bool}
    (hm : Sandbox.Made h.workspace.heap p m r) (hv : h.workspace.heap.Holds m exportsKey v)
    (hmark : h.workspace.heap.Marked m b) :
    Finishes T h ((populate f realm p m (h.withModule p m)).after
      [⟨.dispatched p m, h.withModule p m⟩]) ∧
      GivesExports (populate f realm p m (h.withModule p m)) := by
  have hregistered := hh.withModule hv p
  have hdispatched : Passing T h (h.withModule p m) [⟨.dispatched p m, h.withModule p m⟩] :=
    .moment _ hregistered (.refl _) (by simp)
  obtain ⟨n, hn⟩ := hregistered.handlers p
  have hhandler : Finishes T (h.withModule p m) (perform .code f
      ((h.withModule p m).registry.handlerFor p realm m) (h.withModule p m)) := by
    rw [hn]
    exact finishes_follow hf .code (Hook.asking_handler n hh.workspace hrealm hm hv) hregistered rfl
  simp only [populate]
  generalize perform .code f _ (h.withModule p m) = handled at hhandler
  obtain ⟨result, g, j⟩ := handled
  obtain ⟨hpassing, htells⟩ := hhandler
  cases result with
  | error e =>
    have hdropped : Passing T g (g.withoutModule p) [⟨.dropped p, g.withoutModule p⟩] :=
      .moment _ (hpassing.stocked.withoutModule p) (.refl _) (by simp)
    refine ⟨⟨hdispatched.trans (hpassing.trans hdropped), ?_⟩, by rintro _ ⟨⟩⟩
    exact fun e' he => htells e' (by cases he; rfl)
  | ok _ =>
    obtain ⟨c, hc⟩ := hpassing.heap.marked hmark
    have hgo : g.workspace.Goes T { g.workspace with heap := g.workspace.heap.mark m } :=
      .of_continues hpassing.stocked.workspace (.mark hpassing.stocked.workspace.neutral hc)
    have hmarked : perform .marking f (Load.setProperty realm m "loaded" (.bool true)) g =
        .single (.ran .marking g) (.ok ()) _ := perform_of_done (setLoaded_of_marked hc)
    have hfilled := hpassing.trans (.ran .marking hpassing.stocked hgo)
    have hcompleted := hfilled.trans (.moment (.completed p m) hfilled.stocked (.refl _)
      (by simp))
    simp only [hmarked]
    refine ⟨⟨hdispatched.trans hcompleted, by rintro _ ⟨⟩⟩, ?_⟩
    rintro _ ⟨⟩
    exact ⟨v, hcompleted.heap.holds hv (by decide)⟩

/-- A module that is not registered is made without running any script, and filled. -/
theorem finishes_loadNew (hf : AnswersStocked T f) (hh : h.Stocked T)
    (hrealm : realm < h.workspace.heap.realms.size) (p : Path) :
    Finishes T h (loadNew f realm p h) ∧ GivesExports (loadNew f realm p h) := by
  obtain ⟨m, w, hnew, hw⟩ :=
    newModule_furnished p (hh.workspace.neutral.plain realm hrealm)
  have hgo : h.workspace.Goes T w :=
    ⟨.of_extends hw.old, (Heap.Continues.of_extends hh.workspace.neutral hw.old).neutral,
      hw.world ▸ hh.workspace.tree, fun n k hk => hh.workspace.hooks n k (hw.at? n ▸ hk)⟩
  have hmade : Passing T h ⟨h.registry, w⟩ [⟨.ran .making h, ⟨h.registry, w⟩⟩] :=
    .ran .making hh hgo
  obtain ⟨hfinishes, hexports⟩ := finishes_populate hf hmade.stocked
    (Nat.lt_of_lt_of_le hrealm hgo.heap.realms) (Sandbox.made_of_furnished hw)
    ⟨true, true, true, hw.exports⟩ hw.unmarked
  simp only [loadNew, perform_of_done hnew]
  exact ⟨⟨hmade.trans hfinishes.passing, hfinishes.tells⟩, hexports⟩

/-- A load is written down between its call and its return. -/
theorem finishes_bracket {r : Record (Except Failure Ref)} (hh : h.Stocked T)
    (hrealm : realm < h.workspace.heap.realms.size) (hr : Finishes T h r) (p : Path) :
    Finishes T h (bracket realm p h r) where
  passing := (Passing.called hh hrealm p).trans
    (hr.passing.trans (.moment _ hr.passing.stocked (.refl _) (by simp)))
  tells := hr.tells

/-- What is asked for is looked up, loaded and handed over. -/
theorem finishes_requireWith (hl : LoadsStocked T l) (hh : h.Stocked T) {q : Requirement}
    (hrealm : q.realm < h.workspace.heap.realms.size) : Finishes T h (requireWith l f q h) := by
  simp only [requireWith]
  cases h.resolve q.specifier q.dir with
  | error e =>
    refine ⟨.refl hh, ?_⟩
    rintro _ ⟨⟩
    exact .inl ⟨e, rfl⟩
  | ok p =>
    obtain ⟨⟨hpassing, htells⟩, hexports⟩ := hl q.realm p h hh hrealm
    simp only
    generalize l q.realm p h = loaded at hpassing htells hexports
    obtain ⟨result, g, j⟩ := loaded
    cases result with
    | error e => exact ⟨hpassing, fun e' he => htells e' (by cases he; rfl)⟩
    | ok m =>
      obtain ⟨v, hv⟩ := hexports m rfl
      have hread : perform .code f (Load.exports q.realm m) g = .single (.ran .code g) (.ok v) g :=
        perform_of_done (exports_of_holds hv)
      simp only [hread]
      have hshown : Passing T g g [⟨.ran .code g, g⟩] :=
        .ran .code hpassing.stocked (.refl hpassing.stocked.workspace)
      exact ⟨hpassing.trans hshown, by rintro _ ⟨⟩⟩

/-- What fails is thrown where it was asked for. -/
theorem answersStocked_answerWith (hl : LoadsStocked T l) : AnswersStocked T (answerWith l f) := by
  intro q h hh hrealm
  obtain ⟨hpassing, htells⟩ := finishes_requireWith (f := f) hl hh hrealm
  simp only [answerWith]
  generalize requireWith l f q h = required at hpassing htells
  obtain ⟨result, g, j⟩ := required
  cases result with
  | ok v =>
    exact ⟨hpassing.trans (.moment _ hpassing.stocked (.refl _) (by simp)), by rintro _ ⟨⟩⟩
  | error e =>
    obtain ⟨v, i, hdone, ext, hv⟩ := throwable_of_told q.realm (htells e rfl)
    have hgo : g.workspace.Goes T { g.workspace with heap := i } :=
      .of_continues hpassing.stocked.workspace (.of_extends hpassing.stocked.workspace.neutral ext)
    have hthrown := hpassing.trans (.ran .throwing hpassing.stocked hgo)
    simp only [perform_of_done hdone, Record.single]
    refine ⟨hthrown.trans (.moment _ hthrown.stocked (.refl _) (by simp)), ?_⟩
    rintro _ ⟨⟩
    exact hv

/-- A registered module is given back at every depth. -/
theorem finishes_found (hh : h.Stocked T) (hrealm : realm < h.workspace.heap.realms.size)
    (hm : h.registry.modules.get? p = some m) (depth : Nat) :
    Finishes T h (loadWithin depth realm p h) ∧ GivesExports (loadWithin depth realm p h) := by
  rw [loadWithin_of_registered hm]
  refine ⟨finishes_bracket hh hrealm ⟨.refl hh, Load.tells_ok⟩ p, ?_⟩
  rintro _ ⟨⟩
  exact hh.modules p m hm

/-- Loads and answers keep hosts stocked at every depth. -/
theorem stocked_within (depth : Nat) :
    LoadsStocked T (loadWithin depth) ∧ AnswersStocked T (answerWithin depth) := by
  induction depth with
  | zero =>
    refine ⟨fun realm p h hh hrealm => ?_, fun q h hh hrealm => ?_⟩
    · cases hm : h.registry.modules.get? p with
      | some m => exact finishes_found hh hrealm hm 0
      | none =>
        rw [loadWithin, hm]
        refine ⟨finishes_bracket hh hrealm ⟨.moment _ hh (.refl _) (by simp), ?_⟩ p, ?_⟩
        · rintro _ ⟨⟩
          exact .inl ⟨_, rfl⟩
        · rintro _ ⟨⟩
    · rw [answerWithin]
      refine ⟨.refl hh, ?_⟩
      rintro _ ⟨⟩
      exact .inr rfl
  | succ n ih =>
    refine ⟨fun realm p h hh hrealm => ?_, ?_⟩
    · cases hm : h.registry.modules.get? p with
      | some m => exact finishes_found hh hrealm hm (n + 1)
      | none =>
        obtain ⟨hfinishes, hexports⟩ := finishes_loadNew ih.2 hh hrealm p
        rw [loadWithin, hm]
        exact ⟨finishes_bracket hh hrealm hfinishes p, hexports⟩
    · rw [answerWithin_succ]
      exact answersStocked_answerWith ih.1

/-! ## Entries -/

/-- What is done with a failure outside of scripts changes nothing. -/
theorem passing_conclude {r : Record (Except Failure α)} (hr : Finishes T h r) :
    Passing T h (conclude r).host (conclude r).journal := by
  obtain ⟨result, g, j⟩ := r
  obtain ⟨hpassing, htells⟩ := hr
  cases result with
  | ok a => exact hpassing
  | error e =>
    obtain ⟨err, hcaught⟩ := caught_of_told homeRealm (htells e rfl)
    simp only [conclude, perform_of_done hcaught]
    exact hpassing.trans (.ran .code hpassing.stocked (.refl hpassing.stocked.workspace))

theorem passing_runMain (hh : h.Stocked T) (p : Path) :
    Passing T h (runMain p h).host (runMain p h).journal := by
  unfold runMain
  split
  · exact .refl hh
  · next q _ =>
    have hloads := (stocked_within (T := T) Host.depthLimit).1 homeRealm q h hh
      hh.workspace.neutral.home
    exact passing_conclude hloads.1

end Recorded

/-! ## Sessions -/

/-- Modules are entered or removed, or the files change within a kind. -/
def Operation.Keeps (T : FileTree → Prop) : Operation → Prop
  | .runMain _ | .evict _ | .clear => True
  | .edit f => ∀ w, T w.tree → T (f w).tree
  | _ => False

theorem Operation.passing {o : Operation} (ho : o.Keeps T) (hh : h.Stocked T) :
    Passing T h (o.run h) (o.journal h) := by
  cases o with
  | runMain p =>
    have hrun := Recorded.passing_runMain hh p
    rwa [Recorded.host_runMain] at hrun
  | evict p =>
    change Passing T h (h.evict p).2 (Recorded.evict p h).journal
    simp only [Host.evict, Recorded.evict]
    cases Host.absolute h.workspace.world.tree p with
    | error _ => exact .refl hh
    | ok q => exact .moment _ (hh.withoutModule q) (.refl _) (by simp)
  | clear => exact .moment _ hh.clear (.refl _) (by simp)
  | edit f =>
    have hedited : Host.Stocked T (h.withWorld (f h.workspace.world)) :=
      ⟨hh.workspace.withWorld (ho _ hh.workspace.tree), hh.handlers, hh.modules⟩
    exact { Passing.refl hedited with heap := .refl _ }
  | _ => exact ho.elim

/-- In every session the names of a module mean nothing special, at every moment. -/
theorem Session.passing (ops : Session) (hops : ∀ o ∈ ops, o.Keeps T) (hh : h.Stocked T) :
    Passing T h (ops.run h) (ops.journal h) := by
  induction ops generalizing h with
  | nil => exact .refl hh
  | cons o rest ih =>
    have ho := Operation.passing (hops o List.mem_cons_self) hh
    exact ho.trans (ih (fun o ho => hops o (List.mem_cons_of_mem _ ho)) ho.stocked)

/-- Nothing is registered yet in a host that has only been prepared. -/
theorem Session.stocked_prepared {world : World} (ht : T world.tree) {setup : Session}
    (hsetup : ∀ o ∈ setup, o.Prepares)
    (hhooks : ∀ n k, Hook.at? (setup.run (.start world)).workspace n = some k → k.Emits T)
    (hhandlers : ∀ p, ∃ n, (setup.run (.start world)).registry.handlerFor p = Hook.handler n) :
    (setup.run (.start world)).Stocked T := by
  obtain ⟨hmodules, hheap, hworld, -⟩ := setup.prepared hsetup (.start world)
  refine ⟨⟨?_, hworld ▸ ht, hhooks⟩, hhandlers, fun p m hm => ?_⟩
  · rw [hheap, Script.heap_start]
    exact Heap.neutral_ground
  · rw [hmodules] at hm
    cases hm

end Hosts

/-! ## A project that is compiled all at once -/

/-- A toolchain that writes files that are given beforehand keeps to trees in which it changes
nothing more, and in which the scripts that it tells of only ask for modules. -/
theorem StandIn.emits_fixed {artifacts : List Path} {files : List (Path × String)} {mtime : Time}
    (htree : ∀ t, T t →
      T (files.foldl (fun t f => StandIn.put mtime t f.1 (Text.encode f.2)) t))
    (hscripts : ∀ o ∈ artifacts, AsksOnly T o) :
    (StandIn.fixed artifacts files mtime).Emits T where
  tree _ _ _ w := htree w.tree
  scripts := by
    rintro n s config w e w' o - ⟨⟩ ho
    obtain ⟨a, ha, rfl⟩ := exists_artifact_of_selectScript ho
    obtain ⟨p, hp, rfl⟩ := List.mem_map.mp ha
    exact hscripts p hp

namespace Session

/-- Sources that ask for each other, one of which cannot be compiled, and one of which asks for what
there is not. -/
def sources : World :=
  ⟨⟨[(["lib".toList], .dir ⟨0⟩), source ["tsconfig.json"] "{}", source ["lib", "tsconfig.json"] "[",
      source ["a.ts"] "import './b';\nimport './lib/c';\n", source ["b.ts"] "import './a';\n",
      source ["lib", "c.ts"] "", source ["d.ts"] "import './lib/c';\nimport './none';\n"], []⟩,
    [], ⟨0⟩, 1, #[]⟩
where
  source (names : List String) (text : String) : Place × Node :=
    (names.map String.toList, .file text.toUTF8 ⟨0⟩ 0)

/-- What the sources are compiled to. -/
def outputs : List (Path × String) :=
  [("/out/a.js", "require('./b');\nrequire('./lib/c');\n"), ("/out/b.js", "require('./a');\n"),
    ("/out/d.js", "require('./lib/c');\nrequire('./none');\n")]

/-- Compiles all sources whichever it is asked for. -/
def bundler : Toolchain := StandIn.fixed (outputs.map Prod.fst) outputs ⟨1⟩

/-- The files when the sources have been compiled. -/
def bundled : FileTree :=
  outputs.foldl (fun t f => StandIn.put ⟨1⟩ t f.1 (Text.encode f.2)) sources.tree

/-- The files when a source has been written again since. -/
def rewritten : FileTree := (bundled.setMtime "/a.ts" ⟨2⟩).toOption.getD bundled

/-- The files that there are at some time. -/
def trees : List FileTree := [sources.tree, bundled, rewritten]

/-- A hook that compiles all sources serves all files. -/
def bundling : Session :=
  [.addHook (.new .standard bundler), .register "ts" (Hook.handler 0),
    .register "js" (Hook.handler 0), .register "json" (Hook.handler 0)]

/-- A module is compiled and run with the modules that it asks for, and run from the cache when it
has been removed. Another one fails whenever it is loaded. The one that is not compiled is given
back until it is removed, and not compiled again then. In the end a source is compiled anew. -/
def rebuilding : Session :=
  [.runMain "/a.ts", .runMain "/d.ts", .runMain "/lib/c.ts", .evict "/a.ts", .runMain "/a.ts",
    .evict "/lib/c.ts", .runMain "/d.ts", .edit fun w => { w with tree := rewritten },
    .evict "/a.ts", .runMain "/a.ts"]

theorem asksOnly_outputs : ∀ o ∈ outputs.map Prod.fst, AsksOnly (· ∈ trees) o := by
  have houtputs : ∀ o ∈ outputs.map Prod.fst, ∀ t ∈ trees,
      (t.readText o).toOption.all Script.asksOnly := by decide +kernel
  intro o ho t text ht hread
  have hasks := houtputs o ho t ht
  rwa [hread] at hasks

theorem emits_bundler : bundler.Emits (· ∈ trees) := by
  refine StandIn.emits_fixed ?_ asksOnly_outputs
  decide +kernel

/-- A host whose files are all served by a hook that compiles all sources. -/
def workshop : Host := bundling.run (.start sources)

theorem prepares_bundling : ∀ o ∈ bundling, o.Prepares := by
  simp [bundling, Operation.Prepares]

theorem handlers_workshop {e : String} {f : Handler} (hf : (e, f) ∈ workshop.registry.handlers) :
    f = Hook.handler 0 := by
  have hf : (e, f) ∈ [("js", Hook.handler 0), ("json", Hook.handler 0), ("ts", Hook.handler 0)] :=
    hf
  simp only [List.mem_cons, Prod.mk.injEq, List.not_mem_nil, or_false] at hf
  rcases hf with ⟨-, rfl⟩ | ⟨-, rfl⟩ | ⟨-, rfl⟩ <;> rfl

theorem stocked_workshop : workshop.Stocked (· ∈ trees) := by
  refine stocked_prepared List.mem_cons_self prepares_bundling (fun n k hk => ?_) fun p => ?_
  · have hk : #[Hook.new .standard bundler][n]? = some k := hk
    cases n with
    | zero =>
      cases hk
      exact ⟨emits_bundler, nofun⟩
    | succ n => simp at hk
  · exact Registry.handlerFor_of_registered (P := fun f => ∃ n, f = Hook.handler n)
      (fun e f hf => ⟨0, handlers_workshop hf⟩) rfl p

/-- Nothing that happens while the modules are loaded makes the names of a module special. -/
theorem plain_rebuilding : (rebuilding.journal workshop).Plain := by
  refine (rebuilding.passing (T := (· ∈ trees)) ?_ stocked_workshop).plain
  simp [rebuilding, Operation.Keeps, trees]

-- a source is compiled to the script of its name, and taken from there later on; where the
-- configuration cannot be read nothing is run
example :
    let k := Hook.new .standard bundler
    let w := { sources with tree := bundled }
    (k.compile "/a.ts" sources).1 = .run "/out/a.js" ∧
      (k.compile "/a.ts" sources).2.2.tree = bundled ∧
      ((k.remember "/a.ts" "/out/a.js").choose "/a.ts" w).toOption.map (·.2.1.stats) =
        some ⟨0, 1, 0⟩ ∧
      (k.compile "/lib/c.ts" sources).1 = .skip := by decide +kernel

end Session

end LoadHook
