import LoadHook.Proofs.Hook.Work
import LoadHook.Proofs.Journal.Law
import LoadHook.Proofs.Module.Stretch
import LoadHook.Proofs.Registry.Dispatching

/-!
# Hooks in sessions

If each handler only adds to the history of a hook, so does every run of a host: what is said of
the hook after its history holds at every moment. However loads are nested, and whatever happens
around a host, its hooks come to their states by the deeds of `Worked`. So what holds of all these
states holds of a hook at every moment of every session.
-/
namespace LoadHook

open Script (RealmRef Ref Value)
open Load (Aside Grows About Lasting)

/-! ## Histories along a session -/

section Histories

variable {ε α : Type} {I : List ε → Workspace → Prop} {H H' : List ε} {number : Nat}
  {h h₁ h₂ : Host} {j k : Journal}

/-- What is said of a hook holds of a host, and all its handlers only add to the history. -/
structure Host.Holds (I : List ε → Workspace → Prop) (H : List ε) (h : Host) : Prop where
  said : I H h.workspace
  handlers : ∀ e f, (e, f) ∈ h.registry.handlers → ∀ realm module, Aside I (f realm module)

/-- What is said of a hook holds of a host after a history that begins with an earlier one. -/
def Host.Told (I : List ε → Workspace → Prop) (H : List ε) (h : Host) : Prop :=
  ∃ H', H <:+ H' ∧ h.Holds I H'

theorem Host.Holds.told (hh : h.Holds I H) : h.Told I H := ⟨H, List.suffix_refl H, hh⟩

theorem Host.Told.of_suffix (hs : H <:+ H') (hh : h.Told I H') : h.Told I H := by
  obtain ⟨H₁, hs₁, hh⟩ := hh
  exact ⟨H₁, hs.trans hs₁, hh⟩

/-- The history grows along a journal that ends in a host. -/
structure Grown (I : List ε → Workspace → Prop) (H : List ε) (j : Journal) (h : Host) : Prop where
  moments : ∀ x ∈ j, x.host.Told I H
  last : h.Told I H

namespace Grown

theorem nil (hh : h.Told I H) : Grown I H [] h := ⟨by simp, hh⟩

theorem of_suffix (hs : H <:+ H') (hj : Grown I H' j h) : Grown I H j h :=
  ⟨fun x hx => (hj.moments x hx).of_suffix hs, hj.last.of_suffix hs⟩

theorem cons {x : Moment} (hx : x.host.Told I H) (hj : Grown I H j h) : Grown I H (x :: j) h :=
  ⟨List.forall_mem_cons.mpr ⟨hx, hj.moments⟩, hj.last⟩

theorem single {what : Happening} (hh : h.Told I H) : Grown I H [⟨what, h⟩] h :=
  ⟨List.forall_mem_singleton.mpr hh, hh⟩

/-- One piece of a journal after another. -/
theorem append (hj : Grown I H j h₁)
    (hk : ∀ H₁, H <:+ H₁ → h₁.Holds I H₁ → Grown I H₁ k h₂) : Grown I H (j ++ k) h₂ := by
  obtain ⟨hmoments, H₁, hs, hh⟩ := hj
  obtain ⟨hrest, hlast⟩ := (hk H₁ hs hh).of_suffix hs
  exact ⟨List.forall_mem_append.mpr ⟨hmoments, hrest⟩, hlast⟩

end Grown

namespace Host.Holds

theorem withModule (hh : h.Holds I H) (p : Path) (m : Ref) : (h.withModule p m).Holds I H :=
  ⟨hh.said, hh.handlers⟩

theorem withoutModule (hh : h.Holds I H) (p : Path) : (h.withoutModule p).Holds I H :=
  ⟨hh.said, hh.handlers⟩

/-- What is said of a hook is said again after any change of what is around it. -/
theorem changed (hI : About number I) (hh : h.Holds I H) {w : Workspace}
    (hw : Hook.at? w number = Hook.at? h.workspace number) : Grown I H [] ⟨h.registry, w⟩ := by
  obtain ⟨H', hs, hI'⟩ := hI.alone H h.workspace w hh.said hw
  exact .nil ⟨H', hs, hI', hh.handlers⟩

/-- Whatever serves a path only adds to the history. -/
theorem handlerFor (hI : About number I) (hh : h.Holds I H) (p : Path) (realm : RealmRef)
    (module : Ref) : Aside I (h.registry.handlerFor p realm module) := by
  rcases h.registry.handlerFor_cases p with ⟨e, he⟩ | hscript
  · exact hh.handlers e _ he realm module
  · rw [hscript]
    exact (Load.composed_scriptHandler realm module).secluded.aside hI

/-- Registering a handler that only adds to the history. -/
theorem register (hh : h.Holds I H) (e : String) {f : Handler}
    (hf : ∀ realm module, Aside I (f realm module)) : (h.register e f).Holds I H where
  said := hh.said
  handlers := Registry.forall_mem_register hh.handlers e hf

end Host.Holds

namespace Recorded

variable {f : Answerer}

/-- Whatever an answerer is asked, the history grows. -/
def Keeping (I : List ε → Workspace → Prop) (f : Answerer) : Prop :=
  ∀ q h H, h.Holds I H → Grown I H (f q h).journal (f q h).host

theorem grown_follow (hf : Keeping I f) (part : Part) {x : Talk (Except Failure α × Workspace)}
    {post : α → List ε → Prop} (hx : Grows I post H x)
    (hh : ∀ e f, (e, f) ∈ h.registry.handlers → ∀ realm module, Aside I (f realm module)) :
    Grown I H (follow part f x h).journal (follow part f x h).host := by
  -- each answer hands back another host, of whose handlers the same is said
  induction hx generalizing h with
  | @done H H' r w hs hI _ => exact .single ⟨H', hs, hI, hh⟩
  | @ask H H' q w next hs hI _ ih =>
    have hasking : Host.Holds I H' ⟨h.registry, w⟩ := ⟨hI, hh⟩
    have hrest := (hf q _ H' hasking).append fun H₁ hs₁ hh₁ =>
      ih (f q ⟨h.registry, w⟩).result _ H₁ hs₁ hh₁.said hh₁.handlers
    exact .cons ⟨H', hs, hasking⟩ (.cons ⟨H', hs, hasking⟩ (hrest.of_suffix hs))

theorem grown_perform (hf : Keeping I f) (part : Part) {x : Load α} (hx : Aside I x)
    (hh : h.Holds I H) :
    Grown I H (perform part f x h).journal (perform part f x h).host :=
  grown_follow hf part (hx H h.workspace hh.said) hh.handlers

end Recorded

/-! ## Sessions -/

open Recorded in
/-- If each handler only adds to the history of a hook, the history grows along every run. -/
theorem runLaw_grown (hI : About number I) :
    RunLaw fun h j h' => ∀ H, h.Holds I H → Grown I H j h' where
  nil _ _ hh := .nil hh.told
  append hj hk H hh := (hj H hh).append fun H₁ _ hh₁ => hk H₁ hh₁
  still _ _ _ _ hh := .single hh.told
  stretch _ _ _ hw H hh := by
    obtain ⟨H', hs, hI'⟩ := hI.alone H _ _ hh.said (hw.at? number)
    exact .single ⟨H', hs, hI', hh.handlers⟩
  dropped p _ _ hh := .single (hh.withoutModule p).told
  evicted p _ _ hh := .single (hh.withoutModule p).told
  cleared _ _ hh := .single (Host.Holds.told ⟨hh.said, hh.handlers⟩)
  hooked k h H hh := by
    obtain ⟨c, hc⟩ := Option.isSome_iff_exists.mp (hI.present H h.workspace hh.said)
    exact hh.changed hI (Host.same_addHook hc k)
  edited _ _ _ hh := hh.changed hI rfl
  dispatched {d h h₁ j} hf _ _ hj hd H hh := by
    refine .cons hh.told ((hj H hh).append fun H₁ _ hh₁ => ?_)
    have hbefore : d.before.Holds I H₁ := hd ▸ hh₁.withModule d.path d.module
    have hhandler := hbefore.handlerFor hI d.path d.realm d.module
    exact .cons hbefore.told (grown_perform hf .code hhandler hbefore)

/-- Along a session the history grows, if each handler that is registered only adds to it. -/
theorem Session.grown (hI : About number I) (ops : Session) (hh : h.Holds I H)
    (hreg : ∀ e f, .register e f ∈ ops → ∀ realm module, Aside I (f realm module)) :
    Grown I H (ops.journal h) (ops.run h) :=
  (runLaw_grown hI).session ops h
    (fun e f hf _ _ hh => .nil (hh.register e (hreg e f hf)).told) H hh

end Histories

/-! ## The deeds of a hook -/

namespace Hook

variable {start k : Hook} {w₀ : World} {number m : Nat} {H : List Deed} {v : Workspace}
  {s o : Path}

/-- The hook of a number has come to its state by deeds. -/
def Stands (start : Hook) (w₀ : World) (number : Nat) (H : List Deed) (v : Workspace) : Prop :=
  ∃ k, at? v number = some k ∧ Worked start w₀ H k v.world

theorem about_stands : About number (Stands start w₀ number) where
  present := by
    rintro H v ⟨k, hk, -⟩
    rw [hk]
    rfl
  alone := by
    rintro H v v' ⟨k, hk, hw⟩ hv
    exact ⟨_, List.suffix_cons _ H, k, hv.trans hk, hw.elsewhere v'.world⟩

theorem lasting_chosen : Lasting (Chosen s o) := by
  rintro H H' hs (⟨a, ha, hsource, hout⟩ | ⟨w, hw⟩)
  · exact .inl ⟨a, hs.subset ha, hsource, hout⟩
  · exact .inr ⟨w, hs.subset hw⟩

/-! ## Handlers of hooks -/

/-- What a hook chooses is its deed. -/
theorem grows_chooseFor (s : Path) (hv : Stands start w₀ number H v) :
    Grows (Stands start w₀ number) (fun c H => ∀ o, c = .run o → Chosen s o H) H
      (chooseFor number s v) := by
  obtain ⟨k, hk, hw⟩ := hv
  simp only [chooseFor, hk]
  cases hc : k.choose s v.world with
  | error cause => exact .done (List.suffix_refl H) ⟨k, hk, hw⟩ nofun
  | ok r =>
    obtain ⟨c, k', w'⟩ := r
    obtain ⟨d, hd, hchosen⟩ := hw.choose hc
    refine .done (List.suffix_cons d H) ⟨k', at?_put (v := { v with world := w' }) hk k', hd⟩ ?_
    rintro _ ⟨⟩
    exact hchosen

/-- What a hook has chosen it may remember, whatever has happened since. -/
theorem grows_rememberFor (hc : Chosen s o H) (hv : Stands start w₀ number H v) :
    Grows (Stands start w₀ number) (fun _ _ => True) H (rememberFor number s o v) := by
  obtain ⟨k, hk, hw⟩ := hv
  have hstands : Stands start w₀ number (.remembered s o :: H)
      (put v number (k.remember s o)) := ⟨_, at?_put hk _, hw.remembered hc⟩
  rw [rememberFor, Load.change, hk]
  exact .done (List.suffix_cons _ H) hstands fun _ _ => trivial

/-- Whatever a module asks for while it is loaded through a hook, the hook does its deeds only. -/
theorem aside_handler (realm : RealmRef) (module : Ref) :
    Aside (Stands start w₀ number) (handler number realm module) := by
  refine .bind ((Load.composed_filename _ _).secluded.aside about_stands) fun s H v hv => ?_
  refine .bind (grows_chooseFor s hv) fun c H v hc hv => ?_
  cases c with
  | skip => exact Aside.done hv
  | run o =>
    have hreport :=
      (Load.Composed.report .info .hook ("  Running " ++ o.text)).secluded.aside about_stands H v hv
    refine .bind (hreport.frame lasting_chosen (hc o rfl)) fun _ H v ⟨_, hc⟩ hv => ?_
    have hrun := (Load.composed_run realm o module).secluded.aside about_stands H v hv
    exact .bind (hrun.frame lasting_chosen hc) fun _ H v ⟨_, hc⟩ hv => grows_rememberFor hc hv

/-- A hook leaves the other hooks alone. -/
theorem spares_handler_of_ne (hm : m ≠ number) (realm : RealmRef) (module : Ref) :
    Load.Spares number (handler m realm module) := by
  refine (Load.composed_filename _ _).secluded.spares.bind fun s => .bind (fun w => ?_) fun c => ?_
  · unfold chooseFor
    split
    · exact .done rfl
    · split
      · exact .failed rfl
      · exact .done (at?_put_of_ne (v := { w with world := _ }) hm _)
  · cases c with
    | skip => exact (Load.Secluded.pure ()).spares
    | run o =>
      refine (Load.Composed.report _ _ _).secluded.spares.bind fun _ =>
        (Load.composed_run _ _ _).secluded.spares.bind fun _ w => .done ?_
      dsimp only
      split
      · rfl
      · exact at?_put_of_ne hm _

/-- A handler leaves each hook to its own deeds. -/
def Fair (f : Handler) : Prop :=
  ∀ start w₀ number realm module, Aside (Stands start w₀ number) (f realm module)

/-- A hook leaves the other hooks alone, and does its own deeds. -/
theorem fair_handler (m : Nat) : Fair (handler m) := by
  intro start w₀ number realm module
  by_cases hm : m = number
  · rw [hm]
    exact aside_handler realm module
  · exact (spares_handler_of_ne hm realm module).aside about_stands

/-- Handlers without hooks leave all hooks alone. -/
theorem fair_simple {f : Handler} (hf : f.Simple) : Fair f := fun _ _ _ realm module =>
  (hf.composed realm module).secluded.aside about_stands

end Hook

/-- In every session with fair handlers a hook has come to its state by its deeds, at every moment
and at the end. -/
theorem Session.stands (ops : Session) {h : Host} {k : Hook} {number : Nat}
    (hk : Hook.at? h.workspace number = some k)
    (hhandlers : ∀ e f, (e, f) ∈ h.registry.handlers → Hook.Fair f)
    (hreg : ∀ e f, .register e f ∈ ops → Hook.Fair f) :
    (∀ x ∈ ops.journal h, ∃ H, Hook.Stands k h.workspace.world number H x.host.workspace) ∧
      ∃ H, Hook.Stands k h.workspace.world number H (ops.run h).workspace := by
  have hstart : h.Holds (Hook.Stands k h.workspace.world number) [] :=
    ⟨⟨k, hk, .idle⟩, fun e f hf => hhandlers e f hf _ _ _⟩
  have hgrown := ops.grown Hook.about_stands hstart fun e f hf => hreg e f hf _ _ _
  refine ⟨fun x hx => ?_, ?_⟩
  · obtain ⟨H, -, hx⟩ := hgrown.moments x hx
    exact ⟨H, hx.said⟩
  · obtain ⟨H, -, hlast⟩ := hgrown.last
    exact ⟨H, hlast.said⟩

/-- The handlers of a host that has been started are fair if those that were registered are. -/
theorem Session.fair_run (ops : Session) (w : World) (hreg : ∀ c ∈ ops.registrations, Hook.Fair c.2)
    {e : String} {f : Handler} (hf : (e, f) ∈ (ops.run (.start w)).registry.handlers) :
    Hook.Fair f := by
  rw [ops.handlers_run] at hf
  have hinitial (e : String) (f : Handler) (hf : (e, f) ∈ Registry.initial.handlers) :
      Hook.Fair f := Hook.fair_simple (Registry.simple_initial hf)
  exact Registry.forall_mem_registerAll hinitial hreg e f hf

/-- In every session of a new host whose handlers do without hooks or are those of hooks, a hook
that is added does nothing but its deeds from then on, however loads are nested and whatever other
hooks do. -/
theorem Session.stands_added (setup ops : Session) (w : World) (start : Hook)
    (hreg : ∀ c ∈ setup.registrations ++ ops.registrations,
      c.2.Simple ∨ ∃ m, c.2 = Hook.handler m) :
    let h := setup.run (.start w)
    let number := h.workspace.hooks.size
    (∀ x ∈ ops.journal (h.addHook start).2,
        ∃ H, Hook.Stands start h.workspace.world number H x.host.workspace) ∧
      ∃ H, Hook.Stands start h.workspace.world number H
        (ops.run (h.addHook start).2).workspace := by
  intro h number
  have hfair {c : String × Handler} (hc : c ∈ setup.registrations ++ ops.registrations) :
      Hook.Fair c.2 := by
    rcases hreg c hc with hsimple | ⟨m, hm⟩
    · exact Hook.fair_simple hsimple
    · exact hm ▸ Hook.fair_handler m
  refine ops.stands (h := (h.addHook start).2) Array.getElem?_push_size
    (fun e f hf => ?_) fun e f hf => ?_
  · exact setup.fair_run w (fun c hc => hfair (List.mem_append_left _ hc)) hf
  · have hc : (e, f) ∈ ops.registrations := List.mem_filterMap.mpr ⟨_, hf, rfl⟩
    exact hfair (List.mem_append_right _ hc)

end LoadHook
