import LoadHook.Module.Entry
import LoadHook.Proofs.Lookup
import LoadHook.Proofs.Path.Pieces

/-!
# Registered handlers

Registering a handler adds it under its extension or puts it in the place of another one, and
whatever serves a path has been registered or is the handler of scripts. A sequence of
registrations keeps the order of the extensions that are there and adds the others at the end.
Afterwards an extension has the handler that was registered for it last.
-/
namespace LoadHook

namespace Registry

variable {g : Registry} {d e : String} {f : Handler} {c : String × Handler}
  {fs calls : List (String × Handler)}

theorem mem_putHandler (hc : c ∈ putHandler e f fs) : c = (e, f) ∨ c ∈ fs := by
  induction fs with
  | nil => exact .inl (List.mem_singleton.mp hc)
  | cons d rest ih =>
    unfold putHandler at hc
    split at hc
    · next hd =>
      rcases List.mem_cons.mp hc with rfl | hc
      · exact .inl (by rw [hd])
      · exact .inr (List.mem_cons_of_mem d hc)
    · rcases List.mem_cons.mp hc with rfl | hc
      · exact .inr List.mem_cons_self
      · exact (ih hc).imp_right (List.mem_cons_of_mem d)

/-- What all registered handlers have they still have when one more that has it is registered. -/
theorem forall_mem_register {P : Handler → Prop} (hg : ∀ e f, (e, f) ∈ g.handlers → P f)
    (e : String) (hf : P f) : ∀ d f', (d, f') ∈ (g.register e f).handlers → P f' := by
  intro d f' hd
  rcases mem_putHandler hd with hd | hd
  · obtain ⟨-, rfl⟩ := Prod.mk.inj hd
    exact hf
  · exact hg d f' hd

theorem mem_of_handler? {g : Registry} (hf : g.handler? e = some f) : (e, f) ∈ g.handlers := by
  obtain ⟨before, after, hl, -⟩ := List.lookup_eq_some_iff.mp hf
  rw [hl]
  exact List.mem_append_right before List.mem_cons_self

/-- What serves a path depends on the handlers only. -/
theorem handlerFor_congr {g g' : Registry} (h : g.handlers = g'.handlers) (p : Path) :
    g.handlerFor p = g'.handlerFor p := by
  simp only [handlerFor, handler?, h]

/-- What serves a path has been registered, or is the handler of scripts. -/
theorem handlerFor_cases (g : Registry) (p : Path) :
    (∃ e, (e, g.handlerFor p) ∈ g.handlers) ∨ g.handlerFor p = .script := by
  unfold handlerFor
  cases hp : g.handler? (extensionOf p) with
  | some f => exact .inl ⟨_, mem_of_handler? hp⟩
  | none =>
    cases hjs : g.handler? "js" with
    | some f => exact .inl ⟨_, mem_of_handler? hjs⟩
    | none => exact .inr rfl

/-- What all registered handlers have, whatever serves a path has, if one of them stands for what is
not registered. -/
theorem handlerFor_of_registered {P : Handler → Prop} (hg : ∀ e f, (e, f) ∈ g.handlers → P f)
    (hjs : (g.handler? "js").isSome) (p : Path) : P (g.handlerFor p) := by
  obtain ⟨f, hf⟩ := Option.isSome_iff_exists.mp hjs
  unfold handlerFor
  cases hp : g.handler? (extensionOf p) with
  | some f' => exact hg _ _ (mem_of_handler? hp)
  | none =>
    rw [hf]
    exact hg _ _ (mem_of_handler? hf)

/-! ## Registrations in turn -/

/-- Registers handlers one after the other. -/
def registerAll (g : Registry) (calls : List (String × Handler)) : Registry :=
  calls.foldl (fun g c => g.register c.1 c.2) g

/-- The handler that is registered last for an extension. -/
def latest? (calls : List (String × Handler)) (e : String) : Option Handler :=
  (calls.reverse.map fun c => (bareExtension c.1, c.2)).lookup e

theorem registerAll_cons (g : Registry) (c : String × Handler)
    (calls : List (String × Handler)) :
    g.registerAll (c :: calls) = (g.register c.1 c.2).registerAll calls := rfl

theorem forall_mem_registerAll {P : Handler → Prop} (hg : ∀ e f, (e, f) ∈ g.handlers → P f)
    {calls : List (String × Handler)} (hcalls : ∀ c ∈ calls, P c.2) :
    ∀ e f, (e, f) ∈ (g.registerAll calls).handlers → P f := by
  induction calls generalizing g with
  | nil => exact hg
  | cons c rest ih =>
    exact ih (forall_mem_register hg c.1 (hcalls c List.mem_cons_self))
      fun d hd => hcalls d (List.mem_cons_of_mem c hd)

/-! ## Extensions -/

theorem map_putHandler (e : String) (f : Handler) (fs : List (String × Handler)) :
    (putHandler e f fs).map Prod.fst =
      if e ∈ fs.map Prod.fst then fs.map Prod.fst else fs.map Prod.fst ++ [e] := by
  induction fs with
  | nil => rfl
  | cons c rest ih =>
    obtain ⟨d, g⟩ := c
    by_cases hd : d = e
    · simp [putHandler, hd]
    · have hmem : e ∈ d :: rest.map Prod.fst ↔ e ∈ rest.map Prod.fst := by
        simp [Ne.symm hd]
      rw [putHandler, if_neg hd, List.map_cons, List.map_cons, ih]
      simp only [hmem]
      split <;> rfl

/-- A registration keeps the extensions, and adds its own at the end if it is new. -/
theorem extensions_register (g : Registry) (e : String) (f : Handler) :
    (g.register e f).extensions =
      if bareExtension e ∈ g.extensions then g.extensions
      else g.extensions ++ [bareExtension e] :=
  map_putHandler (bareExtension e) f g.handlers

theorem prefix_registerAll (g : Registry) (calls : List (String × Handler)) :
    g.extensions <+: (g.registerAll calls).extensions := by
  induction calls generalizing g with
  | nil => exact List.prefix_refl _
  | cons c rest ih =>
    refine List.IsPrefix.trans ?_ (ih (g.register c.1 c.2))
    rw [extensions_register]
    split
    · exact List.prefix_refl _
    · exact List.prefix_append _ _

/-- Where all extensions are registered already, no extension is added. -/
theorem extensions_registerAll (h : ∀ c ∈ calls, bareExtension c.1 ∈ g.extensions) :
    (g.registerAll calls).extensions = g.extensions := by
  induction calls generalizing g with
  | nil => rfl
  | cons c rest ih =>
    have hfirst : (g.register c.1 c.2).extensions = g.extensions := by
      rw [extensions_register, if_pos (h c List.mem_cons_self)]
    rw [registerAll_cons, ih fun d hd => ?_, hfirst]
    rw [hfirst]
    exact h d (List.mem_cons_of_mem c hd)

/-! ## Handlers -/

/-- Which handlers there are afterwards depends on those that were there before. -/
theorem handlers_registerAll (g : Registry) (calls : List (String × Handler)) :
    (g.registerAll calls).handlers =
      calls.foldl (fun fs c => putHandler (bareExtension c.1) c.2 fs) g.handlers := by
  induction calls generalizing g with
  | nil => rfl
  | cons c rest ih => exact ih (g.register c.1 c.2)

theorem lookup_putHandler (d e : String) (f : Handler) (fs : List (String × Handler)) :
    (putHandler e f fs).lookup d = if e = d then some f else fs.lookup d := by
  induction fs with
  | nil => exact Lookup.lookup_cons (e, f) [] d
  | cons c rest ih =>
    rw [putHandler]
    by_cases hc : c.1 = e
    · rw [if_pos hc, Lookup.lookup_cons, Lookup.lookup_cons, hc]
      split <;> rfl
    · rw [if_neg hc, Lookup.lookup_cons, Lookup.lookup_cons, ih]
      by_cases hd : c.1 = d
      · rw [if_pos hd, if_pos hd, if_neg fun he => hc (hd.trans he.symm)]
      · rw [if_neg hd, if_neg hd]

theorem handler?_register (g : Registry) (d e : String) (f : Handler) :
    (g.register e f).handler? d = if bareExtension e = d then some f else g.handler? d :=
  lookup_putHandler d (bareExtension e) f g.handlers

theorem latest?_cons (c : String × Handler) (calls : List (String × Handler)) (e : String) :
    latest? (c :: calls) e =
      (latest? calls e).or (if bareExtension c.1 = e then some c.2 else none) := by
  rw [latest?, List.reverse_cons, List.map_append, List.lookup_append]
  exact congrArg _ (Lookup.lookup_cons (bareExtension c.1, c.2) [] e)

/-- After registrations an extension has the handler registered last for it, else the one that it
had before. -/
theorem handler?_registerAll (g : Registry) (calls : List (String × Handler)) (e : String) :
    (g.registerAll calls).handler? e = (latest? calls e).or (g.handler? e) := by
  induction calls generalizing g with
  | nil => rfl
  | cons c rest ih =>
    rw [registerAll_cons, ih, handler?_register, latest?_cons, Option.or_assoc]
    split <;> rfl

/-! ## The registrations that stand -/

/-- This handler was registered last for an extension. -/
def Stands (calls : List (String × Handler)) (e : String) (f : Handler) : Prop :=
  ∃ d, IsLast (fun c => bareExtension c.1 = e) calls (d, f)

theorem not_stands_nil : ¬Stands [] e f := fun ⟨_, h⟩ => not_isLast_nil h

/-- A registration replaces those of its own extension and leaves the others alone. -/
theorem stands_concat {f' : Handler} : Stands (calls ++ [(d, f)]) e f' ↔
    if bareExtension d = e then f' = f else Stands calls e f' := by
  simp only [Stands, isLast_concat]
  split
  · simp
  · rfl

/-- What registrations have made of a registry, those that it starts with being the first ones. -/
structure Follows (calls : List (String × Handler)) (g : Registry) : Prop where
  nodup : g.extensions.Nodup
  order : g.extensions = (calls.map fun c => bareExtension c.1).eraseDups
  handlers : ∀ e f, g.handler? e = some f ↔ Stands calls e f

namespace Follows

theorem initial : Follows Registry.initial.handlers .initial where
  nodup := by decide
  order := by decide
  handlers e f := by
    rw [show Registry.initial.handlers = ([] ++ [("js", .script)]) ++ [("json", .json)] from rfl,
      stands_concat, stands_concat, iff_false_intro not_stands_nil, handler?, Registry.initial,
      Lookup.lookup_cons, Lookup.lookup_cons]
    have hjs : bareExtension "js" = "js" := by decide
    have hjson : bareExtension "json" = "json" := by decide
    rw [hjs, hjson]
    by_cases he : "json" = e
    · subst he
      simp [eq_comm]
    · by_cases he' : "js" = e
      · simp [he, he', eq_comm]
      · simp [he, he']

theorem mem_extensions (h : Follows calls g) :
    e ∈ g.extensions ↔ e ∈ calls.map fun c => bareExtension c.1 := by
  rw [h.order, List.mem_eraseDups]

/-- One more registration. -/
theorem register (h : Follows calls g) (d : String) (f : Handler) :
    Follows (calls ++ [(d, f)]) (g.register d f) where
  nodup := by
    rw [extensions_register]
    split
    · exact h.nodup
    · next hd =>
      refine List.nodup_append.mpr ⟨h.nodup, List.pairwise_singleton _ _, fun e he e' he' => ?_⟩
      cases List.mem_singleton.mp he'
      exact fun heq => hd (heq ▸ he)
  order := by
    rw [extensions_register, List.map_append, List.eraseDups_append, ← h.order]
    by_cases hd : bareExtension d ∈ g.extensions
    · have hmem := h.mem_extensions.mp hd
      simp [List.removeAll, hd, hmem]
    · have hmem := mt h.mem_extensions.mpr hd
      have hone : [bareExtension d].eraseDups = [bareExtension d] := rfl
      simp [List.removeAll, hd, hmem, hone]
  handlers e f' := by
    rw [handler?_register, stands_concat]
    split
    · rw [Option.some.injEq, eq_comm]
    · exact h.handlers e f'

/-- Any number of registrations. -/
theorem registerAll (h : Follows calls g) (more : List (String × Handler)) :
    Follows (calls ++ more) (g.registerAll more) := by
  induction more generalizing calls g with
  | nil => rwa [List.append_nil]
  | cons c more ih =>
    rw [← List.singleton_append, ← List.append_assoc]
    exact ih (h.register c.1 c.2)

/-- A path is served by the handler that stands for its extension if there is one, else by the one
that stands for scripts. -/
theorem handlerFor_eq_iff (h : Follows calls g) (hjs : "js" ∈ g.extensions) (p : Path)
    (f : Handler) : g.handlerFor p = f ↔
      Stands calls (if extensionOf p ∈ g.extensions then extensionOf p else "js") f := by
  have hsome {e : String} (he : e ∈ g.extensions) : ∃ f, g.handler? e = some f := by
    obtain ⟨c, hc, rfl⟩ := List.mem_map.mp he
    exact Option.isSome_iff_exists.mp (List.lookup_isSome_iff.mpr ⟨c, hc, by simp⟩)
  rw [← h.handlers, handlerFor]
  split
  · next he =>
    obtain ⟨f', hf'⟩ := hsome he
    simp [hf']
  · next he =>
    obtain ⟨f', hf'⟩ := hsome hjs
    have hnone : g.handler? (extensionOf p) = none := by
      refine Option.eq_none_iff_forall_ne_some.mpr fun f'' hf'' => he ?_
      exact List.mem_map.mpr ⟨_, mem_of_handler? hf'', rfl⟩
    simp [hnone, hf']

end Follows

/-! ## Extensions of names -/

/-- How a path with this name ends: in what follows the last dot of the name, but a dot in front
begins the name. -/
inductive EndsIn : Option Name → String → Prop
  | dotted (stem x : List Char) (hstem : stem ≠ []) (hx : '.' ∉ x) :
    EndsIn (some (stem ++ '.' :: x)) (String.ofList x)
  | front (x : List Char) (hx : '.' ∉ x) : EndsIn (some ('.' :: x)) ""
  | plain (s : List Char) (hs : '.' ∉ s) : EndsIn (some s) ""
  | nameless : EndsIn none ""

theorem endsIn_extensionOf (p : Path) : EndsIn p.fileName (extensionOf p) := by
  unfold extensionOf Path.extension
  cases p.fileName with
  | none => exact .nameless
  | some s =>
    rw [Option.bind_some]
    by_cases hdot : '.' ∈ s
    · obtain ⟨back, front, hs, hback⟩ := List.eq_append_cons_of_mem (List.mem_reverse.mpr hdot)
      have hx : '.' ∉ back.reverse := fun h => hback (List.mem_reverse.mp h)
      obtain rfl : s = front.reverse ++ '.' :: back.reverse := by
        simpa using congrArg List.reverse hs
      by_cases hstem : front.reverse = []
      · rw [hstem, List.nil_append, Path.cutName_dot_front hx]
        exact .front _ hx
      · rw [Path.cutName_dot hstem hx]
        exact .dotted _ _ hstem hx
    · rw [Path.cutName_of_not_mem hdot]
      exact .plain s hdot

/-- The dots in front of an extension are left out, and nothing else. -/
theorem bareExtension_spec (e : String) :
    (∃ n, e.toList = List.replicate n '.' ++ (bareExtension e).toList) ∧
      (bareExtension e).toList.head? ≠ some '.' := by
  have hbare : (bareExtension e).toList = e.toList.dropWhile (· == '.') := String.toList_ofList
  rw [hbare]
  constructor
  · refine ⟨(e.toList.takeWhile (· == '.')).length, ?_⟩
    have hdots : e.toList.takeWhile (· == '.') =
        List.replicate (e.toList.takeWhile (· == '.')).length '.' :=
      List.eq_replicate_iff.mpr ⟨rfl, fun c hc => by simpa using List.mem_takeWhile_imp hc⟩
    rw [← hdots, List.takeWhile_append_dropWhile]
  · intro h
    simpa [h] using List.head?_dropWhile_not (· == '.') e.toList

end Registry

namespace Host

/-- Registers handlers one after the other. -/
def registerAll (h : Host) (calls : List (String × Handler)) : Host :=
  calls.foldl (fun h c => h.register c.1 c.2) h

theorem registerAll_eq (h : Host) (calls : List (String × Handler)) :
    h.registerAll calls = { h with registry := h.registry.registerAll calls } := by
  induction calls generalizing h with
  | nil => rfl
  | cons c rest ih => exact ih (h.register c.1 c.2)

/-- What a registry is after registrations in turn, those that a host starts with being the first
ones. -/
structure RegistrationLaw (calls : List (String × Handler)) (g : Registry) : Prop where
  /-- No extension is registered twice. -/
  nodup : g.extensions.Nodup
  /-- The extensions stand in the order in which they were registered first, without the dots in
  front of them. -/
  order : g.extensions = (calls.map fun c => Registry.bareExtension c.1).eraseDups
  bare : ∀ c ∈ calls, (∃ n, c.1.toList =
    List.replicate n '.' ++ (Registry.bareExtension c.1).toList) ∧
      (Registry.bareExtension c.1).toList.head? ≠ some '.'
  first : ["js", "json"] <+: g.extensions
  /-- The extension of a path is that of its name. -/
  ends : ∀ p : Path, Registry.EndsIn p.fileName (Registry.extensionOf p)
  /-- A path is served by what was registered last for its extension, or else for scripts. -/
  serves : ∀ p f, g.handlerFor p = f ↔ Registry.Stands calls
    (if Registry.extensionOf p ∈ g.extensions then Registry.extensionOf p else "js") f

/-- After any sequence of registrations each extension is listed once, in the order of the first
ones, and a path is served by what was registered last for its extension, or else for scripts. -/
theorem registration_law (w : World) (calls : List (String × Handler)) :
    RegistrationLaw (Registry.initial.handlers ++ calls)
      ((Host.start w).registerAll calls).registry := by
  have hregistry : ((Host.start w).registerAll calls).registry =
      Registry.initial.registerAll calls := by
    rw [registerAll_eq]
    rfl
  have hfollows := Registry.Follows.initial.registerAll calls
  have hfirst : ["js", "json"] <+: (Registry.initial.registerAll calls).extensions :=
    Registry.prefix_registerAll Registry.initial calls
  rw [hregistry]
  refine ⟨hfollows.nodup, hfollows.order, fun c _ => Registry.bareExtension_spec c.1, hfirst,
    Registry.endsIn_extensionOf, hfollows.handlerFor_eq_iff ?_⟩
  exact hfirst.subset List.mem_cons_self

/-- Four spellings of extensions are two. -/
example : ((Host.start ⟨⟨[], []⟩, [], ⟨0⟩, 1, #[]⟩).registerAll
    [(".ts", .inert), ("..ts", .json), ("", .inert), (".", .script)]).registry.extensions =
    ["js", "json", "ts", ""] := by decide

end Host
end LoadHook
