import LoadHook.Module.Entry

/-!
# Journals of runs

What happens while a host works is written down as a list of moments, each with the host as it
stands then. The recorded functions do what the functions of a host do and keep the journal
beside the result. Nothing of the host depends on the journal: forgetting it gives the functions
of the host back.
-/
namespace LoadHook

open Script (Value RealmRef Ref)

/-- Whose steps a stretch of a run belongs to: the host makes a module object, marks it as loaded,
or makes an error that is thrown; all the rest is the code of handlers and scripts. -/
inductive Part where
  | making | marking | throwing | code
  deriving DecidableEq

/-- A load from its call to its return, with the handlers dispatched and the loads completed
meanwhile. -/
structure Call where
  path : Path
  before : Host
  result : Except Failure Ref
  after : Host
  dispatches : List (Path × Ref)
  completions : List (Path × Ref)

/-- What happens in a run. -/
inductive Happening where
  /-- A load begins. -/
  | called (realm : RealmRef) (p : Path)
  /-- A module is registered and its handler is dispatched. -/
  | dispatched (p : Path) (module : Ref)
  /-- The handler has returned and the module is marked as loaded. -/
  | completed (p : Path) (module : Ref)
  /-- The handler has failed and the module is removed. -/
  | dropped (p : Path)
  /-- The object of the module could not be made. -/
  | unmade (p : Path)
  /-- Loads are nested too deep for another one. -/
  | tooDeep (p : Path)
  /-- A load ends. -/
  | returned (c : Call)
  /-- A module is asked for, and the asking part of the run waits. -/
  | asked (part : Part) (q : Requirement)
  /-- A module that was asked for is handed over, or a value is thrown. -/
  | answered (q : Requirement) (before : Host) (a : Except Value Value)
  /-- A stretch without requirements has run. -/
  | ran (part : Part) (before : Host)
  | evicted (p : Path)
  | cleared

/-- A point of a run: what has happened, and the host as it is now. -/
structure Moment where
  what : Happening
  host : Host

/-- The moments of a run in their order. -/
abbrev Journal := List Moment

namespace Journal

/-- The handlers dispatched in a journal. -/
def dispatches (j : Journal) : List (Path × Ref) :=
  j.filterMap fun x => match x.what with
    | .dispatched p m => some (p, m)
    | _ => none

/-- The loads completed in a journal. -/
def completions (j : Journal) : List (Path × Ref) :=
  j.filterMap fun x => match x.what with
    | .completed p m => some (p, m)
    | _ => none

/-- What is written down of a load: its call, what happens until its end, and its return. -/
def bracket (realm : RealmRef) (p : Path) (h : Host) (result : Except Failure Ref) (j : Journal)
    (h' : Host) : Journal :=
  ⟨.called realm p, h⟩ :: (j ++ [⟨.returned ⟨p, h, result, h', dispatches j, completions j⟩, h'⟩])

theorem dispatches_append (j k : Journal) :
    dispatches (j ++ k) = dispatches j ++ dispatches k := List.filterMap_append

@[simp] theorem completions_append (j k : Journal) :
    completions (j ++ k) = completions j ++ completions k := List.filterMap_append

end Journal

/-- A result with the host and the journal that led to it. -/
structure Record (α : Type) where
  result : α
  host : Host
  journal : Journal

namespace Record

variable {α β : Type}

/-- What is left of a record without its journal. -/
def outcome (r : Record α) : α × Host := (r.result, r.host)

/-- A record with moments in front. -/
def after (j : Journal) (r : Record α) : Record α := { r with journal := j ++ r.journal }

/-- A result that is reached in one moment. -/
def single (what : Happening) (result : α) (h : Host) : Record α := ⟨result, h, [⟨what, h⟩]⟩

variable (j : Journal) (r : Record α) (what : Happening) (a : α) (h : Host)

@[simp] theorem result_after : (r.after j).result = r.result := rfl
@[simp] theorem host_after : (r.after j).host = r.host := rfl
@[simp] theorem journal_after : (r.after j).journal = j ++ r.journal := rfl
@[simp] theorem result_single : (single what a h).result = a := rfl
@[simp] theorem host_single : (single what a h).host = h := rfl
@[simp] theorem journal_single : (single what a h).journal = [⟨what, h⟩] := rfl
@[simp] theorem outcome_after : (r.after j).outcome = r.outcome := rfl

end Record

namespace Host

/-- A host with a module registered. -/
def withModule (h : Host) (p : Path) (module : Ref) : Host :=
  { h with registry := h.registry.insert p module }

/-- A host with a module removed. -/
def withoutModule (h : Host) (p : Path) : Host := { h with registry := h.registry.erase p }

end Host

/-! ## Recorded loads -/

namespace Recorded

variable {α : Type}

/-- Answers a requirement and keeps the journal. -/
abbrev Answerer := Requirement → Host → Record (Except Value Value)

/-- Loads modules and keeps the journal. -/
abbrev Loader := RealmRef → Path → Host → Record (Except Failure Ref)

/-- Follows a dialogue of a part of a run from a host. -/
def follow (part : Part) (answer : Answerer) :
    Talk (Except Failure α × Workspace) → Host → Record (Except Failure α)
  | .done (r, w), h => .single (.ran part h) r ⟨h.registry, w⟩
  | .ask q w next, h =>
    let asking : Host := ⟨h.registry, w⟩
    let a := answer q asking
    (follow part answer (next a.result a.host.workspace) a.host).after
      (⟨.ran part h, asking⟩ :: ⟨.asked part q, asking⟩ :: a.journal)

/-- Runs a step of a load, its requirements being answered. -/
def perform (part : Part) (answer : Answerer) (x : Load α) (h : Host) :
    Record (Except Failure α) := follow part answer (x h.workspace) h

/-- Runs the handler of a registered module and marks the module as loaded. -/
def populate (answer : Answerer) (realm : RealmRef) (p : Path) (module : Ref) (h : Host) :
    Record (Except Failure Ref) :=
  let handled := perform .code answer (h.registry.handlerFor p realm module) h
  match handled.result with
  | .error e =>
    (Record.single (.dropped p) (.error e) (handled.host.withoutModule p)).after handled.journal
  | .ok () =>
    let marked := perform .marking answer
      (Load.setProperty realm module "loaded" (.bool true)) handled.host
    match marked.result with
    | .error e => ⟨.error e, marked.host, handled.journal ++ marked.journal⟩
    | .ok () =>
      (Record.single (.completed p module) (.ok module) marked.host).after
        (handled.journal ++ marked.journal)

/-- Loads a module that is not registered. -/
def loadNew (answer : Answerer) (realm : RealmRef) (p : Path) (h : Host) :
    Record (Except Failure Ref) :=
  let made := perform .making answer (Host.newModule realm p) h
  match made.result with
  | .error e => (Record.single (.unmade p) (.error e) made.host).after made.journal
  | .ok module =>
    let registered := made.host.withModule p module
    (populate answer realm p module registered).after
      (made.journal ++ [⟨.dispatched p module, registered⟩])

/-- The exports of the module that is asked for. -/
def requireWith (load : Loader) (answer : Answerer) (q : Requirement) (h : Host) :
    Record (Except Failure Value) :=
  match h.resolve q.specifier q.dir with
  | .error e => ⟨.error (.error e), h, []⟩
  | .ok p =>
    let loaded := load q.realm p h
    match loaded.result with
    | .error e => ⟨.error e, loaded.host, loaded.journal⟩
    | .ok module =>
      (perform .code answer (Load.exports q.realm module) loaded.host).after loaded.journal

/-- Answers a requirement with the exports of a module, or with a thrown error. -/
def answerWith (load : Loader) (answer : Answerer) : Answerer := fun q h =>
  let required := requireWith load answer q h
  match required.result with
  | .ok v =>
    (Record.single (.answered q h (.ok v)) (.ok v) required.host).after required.journal
  | .error e =>
    let thrown := perform .throwing answer (Load.throwable q.realm e) required.host
    let a : Except Value Value := .error (match thrown.result with
      | .ok v => v
      | .error _ => .undefined)
    (Record.single (.answered q h a) a thrown.host).after (required.journal ++ thrown.journal)

/-- The answer where loads are nested too deep. -/
def refuse : Answerer := fun _ h => ⟨.error .undefined, h, []⟩

/-- A load of which the call and the return are written down. -/
def bracket (realm : RealmRef) (p : Path) (h : Host) (r : Record (Except Failure Ref)) :
    Record (Except Failure Ref) :=
  ⟨r.result, r.host, Journal.bracket realm p h r.result r.journal r.host⟩

mutual

/-- Loads the module of a path, at most `depth` loads deep. -/
def loadWithin (depth : Nat) (realm : RealmRef) (p : Path) (h : Host) :
    Record (Except Failure Ref) :=
  bracket realm p h <|
    match h.registry.modules.get? p with
    | some module => ⟨.ok module, h, []⟩
    | none =>
      match depth with
      | 0 => .single (.tooDeep p)
          (.error (.error (.engine .range "Maximum call stack size exceeded"))) h
      | n + 1 => loadNew (answerWithin n) realm p h

/-- Answers a requirement by a load at most `depth` loads deep. -/
def answerWithin (depth : Nat) : Answerer := fun q h =>
  match depth with
  | 0 => refuse q h
  | n + 1 => answerWith (loadWithin n) (answerWithin n) q h

end

/-- Loads the module of a path. -/
def load (realm : RealmRef) (p : Path) (h : Host) : Record (Except Failure Ref) :=
  loadWithin Host.depthLimit realm p h

/-- Answers a requirement that is not part of a load. -/
def answer : Answerer := answerWithin Host.depthLimit

/-- A registered module is given back at every depth. -/
theorem loadWithin_of_registered {p : Path} {h : Host} {m : Ref}
    (hm : h.registry.modules.get? p = some m) (depth : Nat) (realm : RealmRef) :
    loadWithin depth realm p h = bracket realm p h ⟨.ok m, h, []⟩ := by
  cases depth <;> rw [loadWithin, hm]

/-- A module that is not registered is loaded anew. -/
theorem load_of_not_registered (realm : RealmRef) {p : Path} {h : Host}
    (hp : h.registry.modules.get? p = none) :
    load realm p h =
      bracket realm p h (loadNew (answerWithin (Host.depthLimit - 1)) realm p h) := by
  change loadWithin (Host.depthLimit - 1 + 1) realm p h = _
  rw [loadWithin, hp]

end Recorded
end LoadHook
