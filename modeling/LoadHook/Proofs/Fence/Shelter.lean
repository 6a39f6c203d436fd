import LoadHook.Proofs.Fence.Host
import LoadHook.Proofs.Module.Globals
import LoadHook.Proofs.Module.Making
import LoadHook.Proofs.Script.Ground

/-!
# The global object of the host

What a script can get hold of is what the objects and scopes that it starts from lead to. If that is
not the global object of the home realm, nor anything that gives it away, then no script that runs
in the sandbox changes it: the script runs in a realm of its own, whose global object got copies of
what the home realm shows, and all that it reaches stays outside of a fence around the rest.
-/
namespace LoadHook

namespace Script

/-! ## What leads to what -/

/-- An object or a scope of a heap. -/
inductive Cell where
  | object (r : Ref)
  | scope (s : ScopeRef)
  deriving DecidableEq

/-- The object that a value is. -/
def Value.cells : Value → List Cell
  | .obj r => [.object r]
  | _ => []

/-- The value of a property, or the functions that are called for it. -/
def Content.cells : Content → List Cell
  | .data v _ => v.cells
  | .accessor g s => (g.toList ++ s.toList).map .object

/-- What a function leads to when it is called: a script finds the names around it and, where it is
called without an object, the global object of its realm. -/
def Kind.cells (h : Heap) : Kind → List Cell
  | .closure c => [.scope c.scope, .object (h.realm c.realm).global] ++
      c.home.toList.map .object ++ c.fields.map fun e => .object e.2
  | .bound target this args => .object target :: (this.cells ++ args.flatMap Value.cells)
  | _ => []

def Object.cells (h : Heap) (o : Object) : List Cell :=
  o.kind.cells h ++ o.proto.toList.map .object ++ o.props.flatMap fun e => e.2.content.cells

def Receiver.cells : Receiver → List Cell
  | .value v => v.cells
  | _ => []

def Scope.cells (s : Scope) : List Cell :=
  (s.bindings.flatMap fun e => e.2.value.toList.flatMap Value.cells) ++
    s.object.toList.map .object ++ s.parent.toList.map .scope ++ s.receiver.cells ++
    s.callee.toList.map .object ++ s.newTarget.cells

/-- The objects that stand above the objects of a realm. -/
def Realm.tops (r : Realm) : List Ref :=
  [r.objectProto, r.functionProto, r.arrayProto, r.stringProto, r.numberProto, r.booleanProto] ++
    r.errorProtos.map Prod.snd

namespace Heap

variable (h : Heap)

/-- What an object or a scope leads to. -/
def leads : Cell → List Cell
  | .object r => (h.object r).cells h
  | .scope s => (h.scope s).cells

/-- What is reached from some objects and scopes. -/
inductive Reached (starts : Cell → Prop) : Cell → Prop
  | start {x : Cell} : starts x → Reached starts x
  | step {x y : Cell} : Reached starts x → y ∈ h.leads x → Reached starts y

variable {h} {starts : Cell → Prop}

/-- Nothing is reached outside of what holds the starts and all that it leads to. -/
theorem Reached.mem {P : Cell → Prop} (hstarts : ∀ x, starts x → P x)
    (hleads : ∀ x, P x → ∀ y ∈ h.leads x, P y) {x : Cell} (hx : h.Reached starts x) : P x := by
  induction hx with
  | start hx => exact hstarts _ hx
  | step _ hy ih => exact hleads _ ih _ hy

/-- It is enough to look at the objects and scopes that there are. -/
theorem Reached.of_checked {inside : Cell → Bool} (hstarts : ∀ x, starts x → inside x)
    (hobjects : ∀ r < h.objects.size, inside (.object r) → (h.leads (.object r)).all inside)
    (hscopes : ∀ s < h.scopes.size, inside (.scope s) → (h.leads (.scope s)).all inside)
    {x : Cell} (hx : h.Reached starts x) : inside x := by
  refine hx.mem (P := fun x => inside x) hstarts fun x hx y hy => ?_
  cases x with
  | object r =>
    by_cases hr : r < h.objects.size
    · exact List.all_eq_true.mp (hobjects r hr hx) y hy
    · rw [leads, object, Array.getElem?_eq_none (Nat.le_of_not_lt hr)] at hy
      cases hy
  | scope s =>
    by_cases hs : s < h.scopes.size
    · exact List.all_eq_true.mp (hscopes s hs hx) y hy
    · rw [leads, scope, Array.getElem?_eq_none (Nat.le_of_not_lt hs)] at hy
      cases hy

end Heap
end Script

open Script (Value RealmRef Ref ScopeRef Heap Cell Fence)
open Host (homeRealm)

/-! ## What a script starts from -/

namespace Host

/-- The global object of the home realm. -/
def homeGlobal (h : Host) : Ref := (h.workspace.heap.realm homeRealm).global

/-- What a script that runs for a module can get hold of from the start: the module, what is
registered, what the home realm shows in its global object, what stands above the objects of all
realms, and the other realms in which modules run. -/
inductive AtHand (h : Host) (module : Ref) : Cell → Prop
  | module : AtHand h module (.object module)
  | registered {p : Path} {m : Ref} : h.registry.modules.get? p = some m →
      AtHand h module (.object m)
  | shown {k : Script.Key} {p : Script.Property} {r : Ref} {w : Bool} :
      h.workspace.heap.own h.homeGlobal k = some p → p.enumerable →
      p.content = .data (.obj r) w → AtHand h module (.object r)
  | above {realm : RealmRef} {r : Ref} : r ∈ (h.workspace.heap.realm realm).tops →
      AtHand h module (.object r)
  | global {realm : RealmRef} : realm ≠ homeRealm →
      AtHand h module (.object (h.workspace.heap.realm realm).global)
  | lexical {realm : RealmRef} : realm ≠ homeRealm → realm < h.workspace.heap.realms.size →
      AtHand h module (.scope (h.workspace.heap.realm realm).lexical)
  | completion {r : Ref} : h.workspace.heap.completion = .obj r → AtHand h module (.object r)

/-- What a script that runs for a module reaches. -/
def InReach (h : Host) (module : Ref) (x : Cell) : Prop :=
  h.workspace.heap.Reached (h.AtHand module) x

/-- The global object of the home realm is sheltered from the scripts that run for a module: it
shows data only, from which it cannot be reached, and no code can be made from text for the home
realm. -/
structure Sheltered (h : Host) (module : Ref) : Prop where
  handlers : ∀ e ∈ h.registry.handlers, e.2.Supplied
  realm : homeRealm < h.workspace.heap.realms.size
  inside : h.homeGlobal < h.workspace.heap.objects.size
  data : ∀ k p, h.workspace.heap.own h.homeGlobal k = some p → p.enumerable →
    ∃ v w, p.content = .data v w
  code : ∀ r m, h.InReach module (.object r) →
    (h.workspace.heap.object r).kind = .native (.maker .function) m →
      m ≠ homeRealm ∧ m < h.workspace.heap.realms.size
  apart : ¬ h.InReach module (.object h.homeGlobal)

variable {h : Host} {module : Ref}

/-! ## The fence -/

namespace Sheltered

variable (hh : h.Sheltered module)

/-- A fence around the home realm and all that is not reached. -/
def fence : Fence where
  barred r := r < h.workspace.heap.objects.size ∧ ¬ h.InReach module (.object r)
  barredScope s := s < h.workspace.heap.scopes.size ∧ ¬ h.InReach module (.scope s)
  closed realm := realm = homeRealm
  kept := h.workspace.heap.object
  global realm := (h.workspace.heap.realm realm).global
  dirs _ := True
  size := h.workspace.heap.objects.size
  scopeSize := h.workspace.heap.scopes.size
  lt_size _ hr := hr.1
  lt_scopeSize _ hs := hs.1
  barred_global realm hrealm := hrealm ▸ ⟨hh.inside, hh.apart⟩
  shown realm hrealm k p hp henum := by
    subst hrealm
    obtain ⟨v, w, hcontent⟩ := hh.data k p hp henum
    refine ⟨v, w, hcontent, fun r hr hbarred => hbarred.2 ?_⟩
    cases v with
    | obj s =>
      cases hr
      exact .start (.shown hp henum hcontent)
    | _ => cases hr

variable {hh}

theorem free_of_inReach {r : Ref} (hr : h.InReach module (.object r)) : hh.fence.Free r :=
  fun hbarred => hbarred.2 hr

theorem freeScope_of_inReach {s : ScopeRef} (hs : h.InReach module (.scope s)) :
    hh.fence.FreeScope s := fun hbarred => hbarred.2 hs

theorem freeValue_of_inReach {v : Value} (hv : ∀ x ∈ v.cells, h.InReach module x) :
    hh.fence.FreeValue v := by
  cases v with
  | obj r => exact free_of_inReach (hv _ (List.mem_singleton.mpr rfl))
  | _ => trivial

theorem freeRef?_of_inReach {o : Option Ref}
    (ho : ∀ x ∈ o.toList.map Cell.object, h.InReach module x) : hh.fence.FreeRef? o := by
  rintro r rfl
  exact free_of_inReach (ho _ (by simp))

theorem clean_of_inReach {c : Script.Content} (hc : ∀ x ∈ c.cells, h.InReach module x) :
    hh.fence.Clean c := by
  cases c with
  | data v w => exact freeValue_of_inReach hc
  | accessor g s =>
    simp only [Script.Content.cells, List.map_append, List.forall_mem_append] at hc
    exact ⟨freeRef?_of_inReach hc.1, freeRef?_of_inReach hc.2⟩

/-- What is reached leads to nothing behind the fence. -/
theorem cleanObject_of_inReach {r : Ref} (hr : h.InReach module (.object r)) :
    hh.fence.CleanObject h.workspace.heap.realms.size (h.workspace.heap.object r) := by
  have hcells : ∀ x ∈ (h.workspace.heap.object r).cells h.workspace.heap, h.InReach module x :=
    fun x hx => .step hr hx
  simp only [Script.Object.cells, List.forall_mem_append] at hcells
  obtain ⟨⟨hkind, hproto⟩, hprops⟩ := hcells
  refine ⟨?_, freeRef?_of_inReach hproto, fun e he => clean_of_inReach fun x hx => ?_⟩
  · have hcode := hh.code r
    generalize (h.workspace.heap.object r).kind = kind at hkind hcode
    cases kind with
    | closure c =>
      simp only [Script.Kind.cells, List.forall_mem_append, List.forall_mem_cons] at hkind
      obtain ⟨⟨⟨hscope, hglobal, -⟩, hhome⟩, hfields⟩ := hkind
      refine ⟨freeScope_of_inReach hscope, fun hrealm => hh.apart ?_, freeRef?_of_inReach hhome,
        fun e he => free_of_inReach (hfields _ (List.mem_map_of_mem he))⟩
      rwa [show c.realm = homeRealm from hrealm] at hglobal
    | native f realm =>
      cases f with
      | maker maker =>
        cases maker with
        | function => exact hcode realm hr rfl
        | _ => trivial
      | _ => trivial
    | bound target this args =>
      simp only [Script.Kind.cells, List.forall_mem_cons, List.forall_mem_append] at hkind
      obtain ⟨htarget, hthis, hargs⟩ := hkind
      refine ⟨free_of_inReach htarget, freeValue_of_inReach hthis, fun v hv => ?_⟩
      exact freeValue_of_inReach fun x hx => hargs x (List.mem_flatMap_of_mem hv hx)
    | _ => trivial
  · exact hprops x (List.mem_flatMap_of_mem he hx)

theorem cleanScope_of_inReach {s : ScopeRef} (hs : h.InReach module (.scope s)) :
    hh.fence.CleanScope (h.workspace.heap.scope s) := by
  have hcells : ∀ x ∈ (h.workspace.heap.scope s).cells, h.InReach module x :=
    fun x hx => .step hs hx
  simp only [Script.Scope.cells, List.forall_mem_append] at hcells
  obtain ⟨⟨⟨⟨⟨hbindings, hobject⟩, hparent⟩, hreceiver⟩, hcallee⟩, hnew⟩ := hcells
  refine ⟨fun e he v hv => freeValue_of_inReach fun x hx => ?_, freeRef?_of_inReach hobject,
    fun up hup => freeScope_of_inReach (hparent _ (by simp [hup])), ?_, freeRef?_of_inReach hcallee,
    freeValue_of_inReach hnew⟩
  · exact hbindings x (List.mem_flatMap_of_mem he (List.mem_flatMap_of_mem (by simp [hv]) hx))
  · generalize (h.workspace.heap.scope s).receiver = receiver at hreceiver
    cases receiver with
    | value v => exact freeValue_of_inReach hreceiver
    | _ => trivial

theorem sealed (hh : h.Sheltered module) :
    hh.fence.Sealed h.workspace.heap.realms.size h.workspace.heap where
  size := Nat.le_refl _
  scopeSize := Nat.le_refl _
  realmSize := Nat.le_refl _
  kept _ _ := rfl
  object r hr := by
    by_cases hlt : r < h.workspace.heap.objects.size
    · exact cleanObject_of_inReach (Classical.not_not.mp fun hnot => hr ⟨hlt, hnot⟩)
    · rw [Heap.object, Array.getElem?_eq_none (Nat.le_of_not_lt hlt)]
      exact ⟨trivial, Fence.freeRef?_none, Fence.cleanProps_nil⟩
  scope s hs := by
    by_cases hlt : s < h.workspace.heap.scopes.size
    · exact cleanScope_of_inReach (Classical.not_not.mp fun hnot => hs ⟨hlt, hnot⟩)
    · rw [Heap.scope, Array.getElem?_eq_none (Nat.le_of_not_lt hlt)]
      exact Fence.cleanScope_default
  realm m := by
    have above {r : Ref} (hr : r ∈ (h.workspace.heap.realm m).tops) : hh.fence.Free r :=
      free_of_inReach (.start (.above hr))
    constructor
    case errorProtos =>
      exact fun e he => above (List.mem_append_right _ (List.mem_map_of_mem he))
    all_goals exact above (by simp [Script.Realm.tops])
  global m hm := free_of_inReach (.start (.global hm))
  lexical m hm hlt := freeScope_of_inReach (.start (.lexical hm hlt))
  inside m hm := hm ▸ hh.realm
  shut _ _ := rfl
  completion := by
    cases hv : h.workspace.heap.completion with
    | obj r => exact free_of_inReach (.start (.completion hv))
    | _ => trivial

theorem houses (hh : h.Sheltered module) :
    hh.fence.Houses h.workspace.heap.realms.size h where
  heap := hh.sealed
  modules _ _ hm := free_of_inReach (.start (.registered hm))
  handlers e he := (hh.handlers e he).serves hh.fence

end Sheltered
end Host

/-- No script changes the global object of the host: whatever runs in the sandbox for a module, with
whatever it loads and however it ends, the object has the properties that it had, if no code from
text is made for the home realm and the object is not reached from what it shows, nor from any other
thing that the script starts from. -/
theorem Sandbox.run_keeps_homeGlobal {h : Host} {module : Ref} (hh : h.Sheltered module)
    (caller : RealmRef) (output : Path) :
    let after := (h.perform Host.answer (Sandbox.run caller output module)).2
    after.homeGlobal = h.homeGlobal ∧
      after.workspace.heap.object h.homeGlobal = h.workspace.heap.object h.homeGlobal := by
  have hran := hh.houses.run (fun _ => trivial)
    (Host.Sheltered.free_of_inReach (.start .module)) caller output
  exact ⟨hran.heap.shut homeRealm rfl, hran.heap.kept _ (hh.fence.barred_global homeRealm rfl)⟩

namespace Sandbox

/-- The heap of a new host without the way from functions to the one that makes functions from text,
and with the object of a module. -/
def plainHeap : Heap :=
  (Script.ground.delete (Script.ground.realm homeRealm).functionProto
    (Script.key "constructor")).2.furnished homeRealm "/a.js"

/-- A host with a module whose script assigns to a name that it has not declared, to a global name
that it was given, and to a property of its global object. -/
def plainHost : Host where
  registry := .insert .initial "/a.js" (Script.ground.objects.size + 1)
  workspace := ⟨⟨⟨[(["a.js".toList],
    .file "leaked = 1; console = 2; global.late = 3".toUTF8 ⟨0⟩ 0)], []⟩, [], ⟨0⟩, 1, #[]⟩,
    plainHeap, #[]⟩

/-- All that is there but the global object of the home realm, the scopes that name its properties,
and the objects that lead to the making of code in the realm. -/
def besideHome : Cell → Bool
  | .object r => r != plainHost.homeGlobal &&
      match (plainHeap.object r).kind with
      | .native (.maker .function) _ => false
      | _ => true
  | .scope s => decide (plainHeap.scopes.size ≤ s)

/-- The one realm of the host shows data, and what stands above its objects is beside it. -/
theorem home_plainHost : (homeRealm < plainHeap.realms.size ∧ plainHeap.realms.size = 1 ∧
    plainHost.homeGlobal < plainHeap.objects.size ∧
    (plainHeap.object plainHost.homeGlobal).isText = false) ∧
    (∀ e ∈ (plainHeap.object plainHost.homeGlobal).props, e.2.enumerable →
      e.2.value?.isSome ∧ e.2.content.cells.all besideHome) ∧
    besideHome (.object 0) ∧ besideHome (.object (Script.ground.objects.size + 1)) ∧
    (plainHeap.realm homeRealm).tops.all fun r => besideHome (.object r) := by
  decide +kernel

/-- What is beside the home realm leads to nothing else. -/
theorem leads_plainHeap : (∀ r < plainHeap.objects.size, besideHome (.object r) →
      (plainHeap.leads (.object r)).all besideHome) ∧
    ∀ s < plainHeap.scopes.size, besideHome (.scope s) →
      (plainHeap.leads (.scope s)).all besideHome := by
  decide +kernel

theorem besideHome_of_atHand {x : Cell} (hx : plainHost.AtHand (Script.ground.objects.size + 1) x) :
    besideHome x := by
  obtain ⟨⟨-, hone, -, hnamed⟩, hshown, hzero, hmodule, htops⟩ := home_plainHost
  have hquiet : plainHost.workspace.heap.completion.ref? = none := by decide +kernel
  have hdefault {realm : RealmRef} (hne : realm ≠ homeRealm) :
      plainHost.workspace.heap.realm realm = default := by
    have hle : plainHeap.realms.size ≤ realm := by
      rw [hone]
      exact Nat.one_le_iff_ne_zero.mpr hne
    rw [Heap.realm, show plainHost.workspace.heap = plainHeap from rfl,
      Array.getElem?_eq_none hle, Option.getD_none]
  cases hx with
  | module => exact hmodule
  | @registered p m hm =>
    have hsame : m = Script.ground.objects.size + 1 := by
      by_cases hp : ("/a.js" : Path).same p
      · rw [show plainHost.registry = .insert .initial "/a.js" _ from rfl, Registry.insert,
          PathMap.get?_insert_of_same hp] at hm
        exact (Option.some.inj hm).symm
      · rw [show plainHost.registry = .insert .initial "/a.js" _ from rfl, Registry.insert,
          PathMap.get?_insert_of_not_same (by simpa using hp)] at hm
        cases hm
    exact hsame ▸ hmodule
  | shown hk he hc =>
    obtain ⟨-, hcells⟩ := hshown _ (Script.Object.mem_props hnamed hk) he
    rw [hc] at hcells
    exact List.all_eq_true.mp hcells _ (List.mem_singleton.mpr rfl)
  | @above realm r hr =>
    by_cases hne : realm = homeRealm
    · exact List.all_eq_true.mp htops r (hne ▸ hr)
    · rw [hdefault hne] at hr
      have hr : r = 0 := by
        simpa [Script.Realm.tops, default, Script.instInhabitedRealm.default] using hr
      exact hr ▸ hzero
  | global hne =>
    rw [hdefault hne]
    exact hzero
  | lexical hne hlt => exact absurd (Nat.lt_one_iff.mp (hone ▸ hlt)) hne
  | completion hc =>
    rw [hc] at hquiet
    cases hquiet

theorem sheltered_plainHost : plainHost.Sheltered (Script.ground.objects.size + 1) := by
  obtain ⟨⟨hrealm, -, hinside, hnamed⟩, hshown, -⟩ := home_plainHost
  have beside {x : Cell} (hx : plainHost.InReach (Script.ground.objects.size + 1) x) :
      besideHome x :=
    hx.of_checked (fun x => besideHome_of_atHand) leads_plainHeap.1 leads_plainHeap.2
  constructor
  case handlers =>
    simp only [show plainHost.registry.handlers = [("js", .script), ("json", .json)] from rfl,
      List.forall_mem_cons]
    exact ⟨.script, .json, nofun⟩
  case realm => exact hrealm
  case inside => exact hinside
  case data =>
    intro k p hk he
    obtain ⟨hvalue, -⟩ := hshown _ (Script.Object.mem_props hnamed hk) he
    obtain ⟨content, e, c⟩ := p
    cases content with
    | data v w => exact ⟨v, w, rfl⟩
    | accessor g s => cases hvalue
  case code =>
    intro r m hr hkind
    have hbeside := beside hr
    rw [besideHome, show plainHeap.object r = plainHost.workspace.heap.object r from rfl, hkind]
      at hbeside
    simp at hbeside
  case apart =>
    intro hr
    have hbeside := beside hr
    simp [besideHome] at hbeside

/-- The script of the module leaves the global object of the host as it was. -/
theorem run_keeps_homeGlobal_plainHost :
    plainHost.Sheltered (Script.ground.objects.size + 1) ∧
      let after := (plainHost.perform Host.answer
        (run homeRealm "/a.js" (Script.ground.objects.size + 1))).2
      after.homeGlobal = plainHost.homeGlobal ∧
        after.workspace.heap.object plainHost.homeGlobal =
          plainHost.workspace.heap.object plainHost.homeGlobal :=
  ⟨sheltered_plainHost, run_keeps_homeGlobal sheltered_plainHost homeRealm "/a.js"⟩

end Sandbox

end LoadHook
