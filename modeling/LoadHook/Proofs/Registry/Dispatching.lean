import LoadHook.Proofs.Files.Walk
import LoadHook.Proofs.Journal.Beginning
import LoadHook.Proofs.Module.Search
import LoadHook.Proofs.Path.Pieces
import LoadHook.Proofs.Registry.Keys
import LoadHook.Proofs.Registry.Registration

/-!
# What serves a file that is found by its extension

Where a file is found by adding an extension to a stem, the file is served by what follows the last
dot of its name. That is the extension that was added, unless there is a dot in it or the name
begins with the dot in front of it: then the file is served by what else is registered, or as a
script.
-/
namespace LoadHook

open Script (RealmRef Ref)

/-! ## Names with an extension added -/

namespace Resolution

variable {t : FileTree} {extensions : List String} {specifier : String} {base dir stem : Path}
  {probes : List Probe} {e : String} {x : List Char}

theorem mem_of_mem_extendedProbes {base : Path}
    (h : .extended stem e ∈ extendedProbes extensions base) : e ∈ extensions := by
  obtain ⟨d, hd, hde⟩ := List.mem_map.mp h
  cases hde
  exact hd

theorem mem_of_mem_fileProbes (h : .extended stem e ∈ fileProbes extensions base) :
    e ∈ extensions :=
  mem_of_mem_extendedProbes ((List.mem_cons.mp h).resolve_left nofun)

/-- Only registered extensions are tried. -/
theorem Listing.extension_mem (h : Listing t extensions base probes)
    (he : .extended stem e ∈ probes) : e ∈ extensions := by
  cases h with
  | plain => exact mem_of_mem_fileProbes he
  | unnamed =>
    exact (List.mem_append.mp he).elim mem_of_mem_fileProbes mem_of_mem_extendedProbes
  | named =>
    rcases List.mem_append.mp he with he | he
    · rcases List.mem_append.mp he with he | he
      · exact mem_of_mem_fileProbes he
      · exact (List.mem_append.mp he).elim mem_of_mem_fileProbes mem_of_mem_extendedProbes
    · exact mem_of_mem_extendedProbes he

theorem SearchOrder.extension_mem (h : SearchOrder t extensions specifier dir probes)
    (he : .extended stem e ∈ probes) : e ∈ extensions := by
  cases h with
  | path _ hlist => exact hlist.extension_mem he
  | package _ _ hlists =>
    obtain ⟨list, hlist, he⟩ := List.mem_flatten.mp he
    obtain ⟨_, -, hbase⟩ := exists_listing hlists hlist
    exact hbase.extension_mem he

/-- A file whose name ends in an extension has as extension what the name is cut to. -/
theorem extension_of_hits (hcwd : t.Reached t.cwd) (he : '/' ∉ e.toList)
    (hfile : (Probe.extended stem e).hits t) : ∃ front last, stem.pieces = front ++ [last] ∧
      (Probe.extended stem e).path.extension = (Path.cutName (last ++ '.' :: e.toList)).2 := by
  have hslash : '/' ∉ '.' :: e.toList := by simpa using he
  obtain ⟨front, last, hstem, hpath⟩ := Path.exists_pieces_append stem hslash
  refine ⟨front, last, hstem, Path.extension_of_pieces hpath ?_⟩
  -- a path that ends in `.` or `..` is no file
  have hdots : ¬ FileTree.IsDots (last ++ '.' :: e.toList) := fun hdots =>
    absurd hfile (Bool.eq_false_iff.mp (FileTree.isFile_dots (.inr hcwd) hdots hpath))
  rw [FileTree.IsDots, not_or] at hdots
  have hempty : last ++ '.' :: e.toList ≠ [] := by simp
  simp [Component.ofPiece, hempty, hdots.1, show last ++ '.' :: e.toList ≠ ['.', '.'] from hdots.2]

/-- Behind its last dot an extension is what serves the file. -/
theorem extensionOf_dotted (hcwd : t.Reached t.cwd) (he : '/' ∉ e.toList)
    (hfile : (Probe.extended stem e).hits t) {d : List Char} (hd : e.toList = d ++ '.' :: x)
    (hx : '.' ∉ x) :
    Registry.extensionOf (Probe.extended stem e).path = String.ofList x := by
  obtain ⟨front, last, -, hext⟩ := extension_of_hits hcwd he hfile
  have hcut : Path.cutName (last ++ '.' :: d ++ '.' :: x) = (last ++ '.' :: d, some x) :=
    Path.cutName_dot (by simp) hx
  rw [Registry.extensionOf, hext, hd, ← List.cons_append, ← List.append_assoc, hcut]
  rfl

/-- An extension without dot serves the file, if the name has something in front of it. -/
theorem extensionOf_plain (hcwd : t.Reached t.cwd) (he : '/' ∉ e.toList)
    (hfile : (Probe.extended stem e).hits t) (hdot : '.' ∉ e.toList) (hopen : ¬ stem.IsOpen) :
    Registry.extensionOf (Probe.extended stem e).path = e := by
  obtain ⟨front, last, hstem, hext⟩ := extension_of_hits hcwd he hfile
  have hlast : last ≠ [] := fun h => hopen (by rw [Path.IsOpen, hstem, List.getLast?_concat, h])
  rw [Registry.extensionOf, hext, Path.cutName_dot hlast hdot]
  exact String.ofList_toList

/-- A name that begins with the dot of its extension has no extension. -/
theorem extensionOf_front (hcwd : t.Reached t.cwd) (he : '/' ∉ e.toList)
    (hfile : (Probe.extended stem e).hits t) (hdot : '.' ∉ e.toList) (hopen : stem.IsOpen) :
    Registry.extensionOf (Probe.extended stem e).path = "" := by
  obtain ⟨front, last, hstem, hext⟩ := extension_of_hits hcwd he hfile
  rw [Path.IsOpen, hstem, List.getLast?_concat, Option.some.injEq] at hopen
  rw [Registry.extensionOf, hext, hopen, List.nil_append, Path.cutName_dot_front hdot]
  rfl

end Resolution

/-! ## Loads by a handler -/

namespace Host

open Resolution

variable {h : Host} {specifier : String} {dir p : Path} {q : Probe} {f : Handler}

/-- What is tried first for a specifier that is a file. -/
def FindsBy (h : Host) (specifier : String) (dir : Path) (q : Probe) : Prop :=
  ∃ probes, SearchOrder h.workspace.world.tree h.registry.extensions specifier dir probes ∧
    probes.find? (Probe.hits h.workspace.world.tree) = some q

/-- Loads a module that is not registered: makes it, registers it and runs a handler for it. -/
def loadBy (f : Handler) (answer : Answerer) (realm : RealmRef) (p : Path) (h : Host) :
    Except Failure Ref × Host :=
  match h.perform answer (newModule realm p) with
  | (.error e, h) => (.error e, h)
  | (.ok module, h) =>
    match (h.withModule p module).perform answer (f realm module) with
    | (.error e, h) => (.error e, h.withoutModule p)
    | (.ok (), h) =>
      match h.perform answer (Load.setProperty realm module "loaded" (.bool true)) with
      | (.error e, h) => (.error e, h)
      | (.ok (), h) => (.ok module, h)

/-- A handler is run for a path whenever the path is loaded and not registered yet. -/
def Serves (h : Host) (p : Path) (f : Handler) : Prop :=
  h.registry.modules.get? p = none →
    ∀ n realm, loadWithin (n + 1) realm p h = loadBy f (answerWithin n) realm p h

/-- Steps of a load change no handler, whatever they ask for. -/
theorem handlers_perform {α : Type} (n : Nat) (x : Load α) (h : Host) :
    (h.perform (answerWithin n) x).2.registry.handlers = h.registry.handlers := by
  have hplayed := Recorded.played_perform (Recorded.plays_within n).2 .code x h
  rw [← Recorded.outcome_perform (Recorded.outcome_within n).2 .code x h]
  exact (hplayed.chains []).handlers

theorem serves_handlerFor (h : Host) (p : Path) : h.Serves p (h.registry.handlerFor p) := by
  intro hp n realm
  have hkept := handlers_perform n (newModule realm p) h
  rw [loadWithin, hp]
  change loadNew (answerWithin n) realm p h = _
  unfold loadNew loadBy
  generalize h.perform (answerWithin n) (newModule realm p) = made at hkept ⊢
  obtain ⟨r, g⟩ := made
  cases r with
  | error e => rfl
  | ok module =>
    have hf : (g.registry.insert p module).handlerFor p = h.registry.handlerFor p :=
      Registry.handlerFor_congr hkept p
    simp only [populate, hf]
    rfl

theorem FindsBy.resolve (hq : h.FindsBy specifier dir q) :
    h.resolve specifier dir = .ok q.path := by
  obtain ⟨probes, horder, hfirst⟩ := hq
  rw [resolve_eq_ok_iff_firstFile horder, firstFile, hfirst, Option.map_some]

end Host

/-! ## Sessions -/

theorem Registry.unbroken_registerAll {g : Registry} {calls : List (String × Handler)}
    (hg : Resolution.Unbroken g.extensions) (hcalls : ∀ c ∈ calls, '/' ∉ c.1.toList) :
    Resolution.Unbroken (g.registerAll calls).extensions := by
  induction calls generalizing g with
  | nil => exact hg
  | cons c rest ih =>
    exact ih (unbroken_register hg (hcalls c List.mem_cons_self) c.2)
      fun d hd => hcalls d (List.mem_cons_of_mem c hd)

namespace Operation

/-- What is registered by something done with a host. -/
def registration? : Operation → Option (String × Handler)
  | .register e f => some (e, f)
  | _ => none

theorem handlers_run {o : Operation} (ho : o.registration? = none) (h : Host) :
    (o.run h).registry.handlers = h.registry.handlers := by
  rcases (conducted o h).chain with ⟨e, f, rfl, -, -⟩ | hchain
  · cases ho
  · exact (hchain []).handlers

end Operation

namespace Session

open Resolution (Unbroken Probe)

variable {ops : Session} {h : Host} {e : String}

/-- The registrations of a session. -/
def registrations (ops : Session) : List (String × Handler) :=
  ops.filterMap Operation.registration?

/-- The handler that is registered last for an extension in a session of a new host, which starts
with handlers for scripts and data. -/
def registered? (ops : Session) (e : String) : Option Handler :=
  (Registry.latest? ops.registrations e).or (Registry.initial.handler? e)

/-- After a session the handlers are those that have been registered. -/
theorem handlers_run (ops : Session) (h : Host) :
    (ops.run h).registry.handlers = (h.registry.registerAll ops.registrations).handlers := by
  induction ops generalizing h with
  | nil => rfl
  | cons o rest ih =>
    rw [run, ih]
    cases ho : o.registration? with
    | none =>
      rw [registrations, registrations, List.filterMap_cons_none ho, Registry.handlers_registerAll,
        Registry.handlers_registerAll, Operation.handlers_run ho h]
    | some c =>
      rw [registrations, registrations, List.filterMap_cons_some ho]
      cases o <;> cases ho
      rfl

theorem handler?_run (ops : Session) (h : Host) (e : String) : (ops.run h).registry.handler? e =
    (Registry.latest? ops.registrations e).or (h.registry.handler? e) :=
  (congrArg (List.lookup e) (ops.handlers_run h)).trans (Registry.handler?_registerAll _ _ e)

theorem unbroken_run (hops : ∀ c ∈ ops.registrations, '/' ∉ c.1.toList)
    (hh : Unbroken h.registry.extensions) : Unbroken (ops.run h).registry.extensions := by
  rw [Registry.extensions, handlers_run]
  exact Registry.unbroken_registerAll hh hops

/-- Some handler serves what ends in `js`. -/
theorem isSome_registered_js (ops : Session) : (ops.registered? "js").isSome := by
  rw [registered?, Option.isSome_or, Bool.or_eq_true]
  exact .inr rfl

/-- What serves a path after a session: what is registered for its extension, else what serves
scripts. -/
theorem exists_serves (ops : Session) (w : World) (p : Path) :
    ∃ f, (ops.registered? (Registry.extensionOf p)).or (ops.registered? "js") = some f ∧
      (ops.run (.start w)).Serves p f := by
  have hsome : ((ops.registered? (Registry.extensionOf p)).or (ops.registered? "js")).isSome := by
    rw [Option.isSome_or, Bool.or_eq_true]
    exact .inr ops.isSome_registered_js
  obtain ⟨f, hf⟩ := Option.isSome_iff_exists.mp hsome
  have hserved : (ops.run (.start w)).registry.handlerFor p = f := by
    rw [Registry.handlerFor, handler?_run, handler?_run]
    change ((ops.registered? (Registry.extensionOf p)).or (ops.registered? "js")).getD _ = f
    rw [hf, Option.getD_some]
  exact ⟨f, hf, hserved ▸ Host.serves_handlerFor _ p⟩

theorem isSome_registered (w : World) (he : e ∈ (ops.run (.start w)).registry.extensions) :
    (ops.registered? e).isSome := by
  obtain ⟨c, hc, rfl⟩ := List.mem_map.mp he
  have hsome : ((ops.run (.start w)).registry.handler? c.1).isSome := by
    rw [Registry.handler?, List.lookup_isSome_iff]
    exact ⟨c, hc, beq_self_eq_true c.1⟩
  rwa [handler?_run] at hsome

/-- What serves a file that is found by adding an extension to a stem.

The handler that was registered last for the extension serves it, if there is no dot in the
extension and something in front of it in the name. If there are dots in the extension, the file is
served by what follows the last of them; if its dot begins the name, by the empty extension. Where
nothing is registered for these, the file is served as those that end in `js`. -/
structure DispatchLaw (ops : Session) (h : Host) (stem : Path) (e : String) : Prop where
  plain : '.' ∉ e.toList → ¬ stem.IsOpen →
    ∃ f, ops.registered? e = some f ∧ h.Serves (stem.append ('.' :: e.toList)) f
  dotted : ∀ d x, e.toList = d ++ '.' :: x → '.' ∉ x →
    ∃ f, (ops.registered? (String.ofList x)).or (ops.registered? "js") = some f ∧
      h.Serves (stem.append ('.' :: e.toList)) f
  front : '.' ∉ e.toList → stem.IsOpen →
    ∃ f, (ops.registered? "").or (ops.registered? "js") = some f ∧
      h.Serves (stem.append ('.' :: e.toList)) f

/-- A file that is found by adding an extension is served by what follows the last dot of its name,
whatever else happens in a session. -/
theorem dispatch_law (ops : Session) (w : World) {specifier : String} {dir stem : Path}
    (hops : ∀ c ∈ ops.registrations, '/' ∉ c.1.toList)
    (hcwd : (ops.run (.start w)).workspace.world.tree.Reached
      (ops.run (.start w)).workspace.world.tree.cwd)
    (hfound : (ops.run (.start w)).FindsBy specifier dir (.extended stem e)) :
    (ops.run (.start w)).resolve specifier dir = .ok (stem.append ('.' :: e.toList)) ∧
      ops.DispatchLaw (ops.run (.start w)) stem e := by
  refine ⟨hfound.resolve, ?_⟩
  obtain ⟨probes, horder, hfirst⟩ := hfound
  have hmem : e ∈ (ops.run (.start w)).registry.extensions :=
    horder.extension_mem (List.mem_of_find?_eq_some hfirst)
  have hslash : '/' ∉ e.toList := unbroken_run hops Registry.Keyed.initial.unbroken e hmem
  have hfile := List.find?_some hfirst
  obtain ⟨f, hf, hserves⟩ := ops.exists_serves w (stem.append ('.' :: e.toList))
  refine ⟨fun hdot hopen => ?_, fun d x hd hx => ?_, fun hdot hopen => ?_⟩
  · have hext := Resolution.extensionOf_plain hcwd hslash hfile hdot hopen
    obtain ⟨g, hg⟩ := Option.isSome_iff_exists.mp (isSome_registered w hmem)
    rw [show Registry.extensionOf (stem.append ('.' :: e.toList)) = e from hext, hg,
      Option.some_or] at hf
    exact ⟨f, hg.trans hf, hserves⟩
  · have hext := Resolution.extensionOf_dotted hcwd hslash hfile hd hx
    exact ⟨f, hext ▸ hf, hserves⟩
  · have hext := Resolution.extensionOf_front hcwd hslash hfile hdot hopen
    exact ⟨f, hext ▸ hf, hserves⟩

/-- A session that registers an extension with a dot in it. -/
def declaring : Session := [.register "d.ts" .inert]

/-- A world with a file of that extension. -/
def declaredWorld : World := ⟨⟨[(["x.d.ts".toList], .file .empty ⟨0⟩ 0)], []⟩, [], ⟨0⟩, 1, #[]⟩

theorem findsBy_declared :
    (declaring.run (.start declaredWorld)).FindsBy "./x" "/" (.extended "/x" "d.ts") := by
  have hlist : Resolution.Listing declaredWorld.tree ["js", "json", "d.ts"]
      ("/" / Path.ofString "./x").normalize
      (Resolution.fileProbes ["js", "json", "d.ts"] ("/" / Path.ofString "./x").normalize) :=
    .plain (by decide +kernel)
  exact ⟨_, .path (.inr (.inr (.inl ⟨['x'], rfl⟩))) hlist, by decide +kernel⟩

/-- The file is found by its extension, and yet it is run as a script. -/
theorem dispatch_law_declared : declaring.registered? "d.ts" = some .inert ∧
    (declaring.run (.start declaredWorld)).resolve "./x" "/" = .ok "/x.d.ts" ∧
    (declaring.run (.start declaredWorld)).Serves "/x.d.ts" .script := by
  obtain ⟨hresolve, hlaw⟩ := dispatch_law declaring declaredWorld
    (by decide) (FileTree.reached_root _) findsBy_declared
  obtain ⟨f, hf, hserves⟩ := hlaw.dotted ['d'] ['t', 's'] rfl (by decide)
  have hscript : some Handler.script = some f := hf
  cases hscript
  exact ⟨rfl, hresolve, hserves⟩

end Session
end LoadHook
