import LoadHook.Proofs.Fence.Load
import LoadHook.Proofs.Path.Map
import LoadHook.Proofs.Registry.Registration

/-!
# Hosts outside of a fence

Every handler that comes with the host, and every hook, fills a module object outside of a fence
with what comes from outside. A host whose handlers hold a fence keeps its heap sealed while it
loads modules, however deep the loads are nested: what a module asks for is answered with what lies
outside of the fence.
-/

namespace LoadHook

/-- A handler that comes with the host, or the one of a hook. -/
inductive Handler.Supplied : Handler → Prop
  | script : Supplied .script
  | json : Supplied .json
  | inert : Supplied .inert
  | completion : Supplied .completion
  | steps : Supplied .steps
  | hook (number : Nat) : Supplied (Hook.handler number)

theorem Handler.Supplied.serves {f : Handler} (hf : f.Supplied) (F : Script.Fence) :
    F.Serves f := by
  cases hf with
  | script => exact Script.Fence.serves_script
  | json => exact Script.Fence.serves_json
  | inert => exact Script.Fence.serves_inert
  | completion => exact Script.Fence.serves_completion
  | steps => exact Script.Fence.serves_steps
  | hook number => exact Script.Fence.serves_hook number

/-! ## Hosts -/

namespace Script.Fence

open Host

variable {F : Fence} {n : Nat} {α : Type} {Q : α → Prop} {h : Host} {p : Path}
  {module : Ref} {f : Answerer}

/-- The heap of a host is sealed, and neither a registered module nor a handler leads behind the
fence. -/
structure Houses (F : Fence) (n : Nat) (h : Host) : Prop where
  heap : F.Sealed n h.workspace.heap
  modules : ∀ p m, h.registry.modules.get? p = some m → F.Free m
  handlers : ∀ e ∈ h.registry.handlers, F.Serves e.2

/-- Whatever is asked for is answered from outside of the fence. -/
def Answers (F : Fence) (f : Answerer) : Prop :=
  ∀ n q h, F.Houses n h → F.FreeAnswer (f q h).1 ∧ F.Houses n (f q h).2

namespace Houses

theorem handlerFor (hh : F.Houses n h) (p : Path) : F.Serves (h.registry.handlerFor p) := by
  rcases h.registry.handlerFor_cases p with ⟨e, he⟩ | hscript
  · exact hh.handlers _ he
  · exact hscript ▸ serves_script

theorem insert (hh : F.Houses n h) (hm : F.Free module) (p : Path) :
    F.Houses n { h with registry := h.registry.insert p module } := by
  refine { hh with modules := fun q m hq => ?_ }
  rcases PathMap.get?_insert_eq_some hq with ⟨-, rfl⟩ | ⟨-, hq⟩
  · exact hm
  · exact hh.modules q m hq

theorem erase (hh : F.Houses n h) (p : Path) :
    F.Houses n { h with registry := h.registry.erase p } :=
  { hh with modules := fun q m hq => hh.modules q m (PathMap.get?_erase_eq_some hq).2 }

/-- A step is run to its end, what it asks for being answered from outside of the fence. -/
theorem perform {x : Load α} (hh : F.Houses n h) (hf : F.Answers f) (hx : F.Guards n Q x) :
    F.FreeOutcome Q (h.perform f x).1 ∧ F.Houses n (h.perform f x).2 := by
  obtain ⟨g, w⟩ := h
  have htalk := hx w hh.heap
  unfold Host.perform
  dsimp only at htalk ⊢
  generalize x w = talk at htalk
  clear hx
  have hmodules := hh.modules
  have hhandlers := hh.handlers
  clear hh
  induction htalk generalizing g with
  | done hs hr => exact ⟨hr, hs, hmodules, hhandlers⟩
  | @ask q w next hs hq _ ih =>
    obtain ⟨ha, hh⟩ := hf w.heap.realms.size q ⟨g, w⟩ ⟨hs.grown, hmodules, hhandlers⟩
    exact ih _ _ ha hh.heap _ hh.modules hh.handlers

end Houses

/-! ## Loads -/

section Loads

variable {load : Loader} (hf : F.Answers f) {realm : RealmRef}
include hf

theorem houses_populate (hh : F.Houses n h) (hm : F.Free module) :
    F.FreeOutcome F.Free (h.populate f realm p module).1 ∧
      F.Houses n (h.populate f realm p module).2 := by
  have hhandled := hh.perform hf (hh.handlerFor p n realm module hm)
  unfold Host.populate
  generalize h.perform f (h.registry.handlerFor p realm module) = handled at hhandled
  obtain ⟨r, h₁⟩ := handled
  obtain ⟨hr, hh₁⟩ := hhandled
  cases r with
  | error e => exact ⟨hr, hh₁.erase p⟩
  | ok _ =>
    have hmarked := hh₁.perform hf (x := Load.setProperty realm module "loaded" (.bool true))
      (guards_setProperty hm "loaded" freeValue_bool)
    dsimp only
    generalize h₁.perform f (Load.setProperty realm module "loaded" (.bool true)) = marked
      at hmarked
    obtain ⟨r, h₂⟩ := marked
    cases r with
    | error e => exact hmarked
    | ok _ => exact ⟨hm, hmarked.2⟩

theorem houses_loadNew (hdirs : ∀ dir, F.dirs dir) (hh : F.Houses n h) :
    F.FreeOutcome F.Free (h.loadNew f realm p).1 ∧ F.Houses n (h.loadNew f realm p).2 := by
  have hmade := hh.perform hf (x := newModule realm p)
    (guards_newModule (hdirs (p.parent.getD "")))
  unfold Host.loadNew
  generalize h.perform f (newModule realm p) = made at hmade
  obtain ⟨r, h₁⟩ := made
  cases r with
  | error e => exact hmade
  | ok module => exact houses_populate hf (hmade.2.insert hmade.1 p) hmade.1

/-- Loads give modules from outside of the fence. -/
def Loads (F : Fence) (load : Loader) : Prop :=
  ∀ n realm p h, F.Houses n h →
    F.FreeOutcome F.Free (load realm p h).1 ∧ F.Houses n (load realm p h).2

variable (hload : F.Loads load)
include hload

theorem houses_requireWith (q : Requirement) (hh : F.Houses n h) :
    F.FreeOutcome F.FreeValue (requireWith load f q h).1 ∧
      F.Houses n (requireWith load f q h).2 := by
  unfold requireWith
  split
  · exact ⟨trivial, hh⟩
  · next p _ =>
    have hloaded := hload n q.realm p h hh
    generalize load q.realm p h = loaded at hloaded
    obtain ⟨r, h₁⟩ := loaded
    cases r with
    | error e => exact hloaded
    | ok module => exact hloaded.2.perform hf (guards_exports hloaded.1)

theorem answers_answerWith : F.Answers (answerWith load f) := by
  intro n q h hh
  have hrequired := houses_requireWith hf hload q hh
  unfold answerWith
  generalize requireWith load f q h = required at hrequired
  obtain ⟨r, h₁⟩ := required
  cases r with
  | ok v => exact hrequired
  | error e =>
    have hthrown := hrequired.2.perform hf (x := Load.throwable q.realm e)
      (guards_throwable hrequired.1)
    dsimp only
    generalize h₁.perform f (Load.throwable q.realm e) = thrown at hthrown
    obtain ⟨r, h₂⟩ := thrown
    cases r with
    | ok v => exact hthrown
    | error e => exact ⟨trivial, hthrown.2⟩

end Loads

/-- However deep loads may be nested, they give modules from outside of the fence, and so what is
asked for is answered. -/
theorem loads_within (hdirs : ∀ dir, F.dirs dir) (depth : Nat) :
    F.Loads (loadWithin depth) ∧ F.Answers (answerWithin depth) := by
  induction depth with
  | zero =>
    refine ⟨fun n realm p h hh => ?_, fun n q h hh => ?_⟩
    · rw [loadWithin]
      cases hp : h.registry.modules.get? p with
      | some module => exact ⟨hh.modules p module hp, hh⟩
      | none => exact ⟨trivial, hh⟩
    · rw [answerWithin]
      exact ⟨trivial, hh⟩
  | succ depth ih =>
    refine ⟨fun n realm p h hh => ?_, fun n q h hh => ?_⟩
    · rw [loadWithin]
      cases hp : h.registry.modules.get? p with
      | some module => exact ⟨hh.modules p module hp, hh⟩
      | none => exact houses_loadNew ih.2 hdirs hh
    · rw [answerWithin]
      exact answers_answerWith ih.2 ih.1 n q h hh

theorem answers_answer (hdirs : ∀ dir, F.dirs dir) : F.Answers answer :=
  (loads_within hdirs Host.depthLimit).2

/-- A script that runs for a module leaves the heap sealed, whatever it loads and however it
ends. -/
theorem Houses.run (hdirs : ∀ dir, F.dirs dir) (hh : F.Houses n h) (hm : F.Free module)
    (caller : RealmRef) (output : Path) :
    F.Houses n (h.perform answer (Sandbox.run caller output module)).2 :=
  have hran := hh.perform (answers_answer hdirs) (guards_run hm output)
  hran.2

end Script.Fence
end LoadHook
