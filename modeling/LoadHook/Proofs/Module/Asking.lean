import LoadHook.Proofs.Module.Neutral

/-!
# Scripts that only ask for modules

A script each of whose statements calls `require` with a text changes nothing by itself. In a realm
that was set up for a module it asks for modules from the directory of the module, and keeps the
heap neutral as long as the host does. If an answer is thrown, or a specifier is no text, it ends
with what was thrown.
-/
namespace LoadHook

/-! ## Protocols -/

/-- How a dialogue and whoever answers it may go on: how the state may change, which questions may
be asked in a state, and what may be heard in answer. -/
structure Protocol (Question Answer State : Type) where
  goes : State → State → Prop
  asks : State → Question → Prop
  hears : State → Answer → Prop
  trans {s s' s'' : State} : goes s s' → goes s' s'' → goes s s''

namespace Protocol

variable {Question Answer State α β : Type} (P : Protocol Question Answer State)

/-- A dialogue that starts from a state keeps to a protocol and ends as it should, as long as the
answers keep to the protocol. -/
inductive Obeys (ends : State → α → Prop) :
    State → Dialogue Question Answer State (α × State) → Prop
  | done {s s' : State} {a : α} : P.goes s s' → ends s' a → Obeys ends s (.done (a, s'))
  | ask {s s' : State} {q : Question} {next} : P.goes s s' → P.asks s' q →
      (∀ a s'', P.goes s' s'' → P.hears s'' a → Obeys ends s'' (next a s'')) →
      Obeys ends s (.ask q s' next)

namespace Obeys

variable {P} {ends : State → α → Prop} {ends' : State → β → Prop} {s s' : State}
  {d : Dialogue Question Answer State (α × State)}

theorem lead (hd : P.Obeys ends s' d) (hs : P.goes s s') : P.Obeys ends s d := by
  cases hd with
  | done hgo ha => exact .done (P.trans hs hgo) ha
  | ask hgo hq hnext => exact .ask (P.trans hs hgo) hq hnext

/-- A dialogue goes on with another one when it has ended. -/
theorem bind {f : α × State → Dialogue Question Answer State (β × State)}
    (hd : P.Obeys ends s d)
    (hf : ∀ a s', P.goes s s' → ends s' a → P.Obeys ends' s' (f (a, s'))) :
    P.Obeys ends' s (d.bind f) := by
  induction hd with
  | done hgo ha => exact (hf _ _ hgo ha).lead hgo
  | ask hgo hq _ ih =>
    exact .ask hgo hq fun a s'' hgo' ha =>
      ih a s'' hgo' ha fun b s₃ hgo'' => hf b s₃ (P.trans (P.trans hgo hgo') hgo'')

end Obeys
end Protocol

open Script (Value RealmRef Ref Heap Eval Key)

namespace Script

variable {α β : Type} {h h' : Heap} {n : Nat} {ctx : Context} {dir : Path} {s : Stmt}

/-! ## What asks for modules -/

/-- A statement that asks for a module. -/
def Stmt.asks : Stmt → Bool
  | .expr (.call (.name k) [.one (.str _)]) => k == key "require"
  | _ => false

/-- A text that is run as a script that asks for modules and does nothing else. -/
def asksOnly (text : String) : Bool :=
  !text.toList.contains '\x00' && match Program.parse false text with
    | .ok p => p.vars.isEmpty && p.body.all Stmt.asks
    | .error _ => false

theorem Stmt.of_asks (hs : s.asks) :
    ∃ u, s = .expr (.call (.name (key "require")) [.one (.str u)]) := by
  unfold asks at hs
  split at hs
  · exact ⟨_, by rw [eq_of_beq hs]⟩
  · cases hs

theorem functionsOf_of_asks {body : List Stmt} (hb : ∀ s ∈ body, s.asks) :
    functionsOf body = [] := by
  refine List.filterMap_eq_nil_iff.mpr fun s hs => ?_
  obtain ⟨u, rfl⟩ := Stmt.of_asks (hb s hs)
  rfl

theorem lexicalNames_of_asks {body : List Stmt} (hb : ∀ s ∈ body, s.asks) :
    lexicalNames body = [] := by
  refine List.flatMap_eq_nil_iff.mpr fun s hs => ?_
  obtain ⟨u, rfl⟩ := Stmt.of_asks (hb s hs)
  rfl

/-! ## Evaluation -/

/-- A script and its host keep the heap neutral. Modules are asked for from realms that there are,
and what is thrown in answer can be told. -/
def asking : Protocol Request (Except Value Value) Heap where
  goes := Heap.Continues
  asks h q := ∃ specifier dir realm, q = .require specifier dir realm ∧ realm < h.realms.size
  hears h a := ∀ v, a = .error v → (Failure.thrown v).Told h
  trans := Heap.Continues.trans

/-- A computation ends with a value, or with what can be told. -/
def Tells (h : Heap) (r : Except Abrupt α) : Prop := ∀ e, r = .error e → (Load.failureOf e).Told h

/-- A computation that keeps to the protocol of asking scripts. -/
def Asking (ends : Heap → Except Abrupt α → Prop) (x : Eval α) (h : Heap) : Prop :=
  asking.Obeys ends h (x h)

namespace Asking

variable {ends : Heap → Except Abrupt α → Prop} {ends' : Heap → Except Abrupt β → Prop}
  {x : Eval α} {f : α → Eval β}

theorem ofResult {r : Except Abrupt α} (hn : h.Neutral) (hr : ends h r) :
    Asking ends (Eval.ofResult r) h := by
  cases r with
  | ok a => exact .done (.refl hn) hr
  | error e => exact .done (.refl hn) hr

theorem pure {a : α} (hn : h.Neutral) : Asking Tells (Pure.pure a : Eval α) h :=
  .done (.refl hn) (by rintro e ⟨⟩)

theorem bind (hx : Asking ends x h)
    (hf : ∀ a h', h.Continues h' → ends h' (.ok a) → Asking ends' (f a) h')
    (he : ∀ e h', ends h' (.error e) → ends' h' (.error e)) : Asking ends' (x >>= f) h := by
  refine Protocol.Obeys.bind hx fun r h' hgo hr => ?_
  cases r with
  | ok a => exact hf a h' hgo hr
  | error e => exact .done (.refl hgo.neutral) (he e h' hr)

theorem outcome (hx : Asking ends x h) :
    Asking (fun h r => ∃ r', r = .ok r' ∧ ends h r') (Eval.outcome x) h :=
  Protocol.Obeys.bind hx fun r _ hgo hr => .done (.refl hgo.neutral) ⟨r, rfl, hr⟩

theorem raise (hn : h.Neutral) (realm : RealmRef) (kind : ErrorKind) (text : String) :
    Asking Tells (raise realm kind text : Eval α) h := by
  obtain ⟨g, hg, ext, hreports⟩ := raise_done α realm kind text h
  rw [Asking, hg]
  exact .done (.of_extends hn ext) (by rintro _ ⟨⟩; exact .inl ⟨_, _, _, rfl, hreports, rfl⟩)

/-- The value of the last expression statement may be replaced. -/
theorem completed {f : Heap → Value} (hn : h.Neutral) {g : Unit → Eval β}
    (hg : ∀ h', h.Continues h' → Asking ends' (g ()) h') :
    Asking ends' (Eval.change (fun h => { h with completion := f h }) >>= g) h := by
  have hgo := Heap.Continues.completion hn (f h)
  exact Protocol.Obeys.lead (hg _ hgo) hgo

end Asking

theorem machine_expr (n : Nat) (ctx : Context) (e : Expr) :
    (machine (n + 1)).expr ctx e = (machine n).evaluate ctx e := rfl

theorem machine_stmt (n : Nat) (ctx : Context) (s : Stmt) :
    (machine (n + 1)).stmt ctx s = (machine n).execute ctx s := rfl

/-- In the realm of a module the name `require` leads to the function of the module. -/
theorem name_require (m : Machine) (ctx : Context) (ha : h.AsksFrom ctx.realm dir)
    (hscope : ctx.scope = (h.realm ctx.realm).lexical) :
    ∃ f own, m.name ctx (key "require") h = .done (.ok (.obj f), h) ∧
      (h.object f).kind = .native (.require dir) own := by
  obtain ⟨-, s, g, hl, hs, hlexical, hglobal, f, own, hf, -, hkind⟩ := ha
  obtain ⟨size, hsize⟩ : ∃ size, h.scopes.size + 1 = size + 2 :=
    ⟨h.scopes.size - 1, by have := Nat.lt_of_le_of_lt (Nat.zero_le _) hs; omega⟩
  have hfind : (h.find g (key "require")).isSome := by
    obtain ⟨_, _, _, hown⟩ := hf
    rw [Heap.find_of_own hown]
    rfl
  have hplace : h.place ctx.scope (key "require") = .property g := by
    rw [Heap.place, hsize, hscope]
    simp only [Heap.placeFrom, hlexical, hglobal]
    simp [default, Option.filter, hfind]
  have hname : m.name? ctx (key "require") h = .done (.ok (some (.obj f)), h) := by
    rw [Machine.name?, Eval.read_bind, hplace]
    exact Eval.bind_of_done (Machine.getRef_of_holds m hf)
  exact ⟨f, own, Eval.bind_of_done hname, hkind⟩

/-- An argument that is a text is what it is. -/
theorem callRequire_str (hn : h.Neutral) {realm : RealmRef} (hrealm : realm < h.realms.size)
    (u : Text.Utf16) : Asking Tells (Machine.callRequire realm dir [.str u]) h := by
  rw [Asking, Machine.callRequire, Eval.read_bind]
  cases ht : textOf h (.str u) with
  | error message => exact Asking.raise hn realm .type message
  | ok specifier =>
    refine .ask (.refl hn) ⟨specifier, dir, realm, rfl, hrealm⟩ fun a h' hgo ha => ?_
    cases a with
    | ok v => exact Asking.pure hgo.neutral
    | error v => exact .done (.refl hgo.neutral) (by rintro _ ⟨⟩; exact ha v rfl)

/-- A statement that asks for a module does nothing else. -/
theorem asking_stmt (hn : h.Neutral) (ha : h.AsksFrom ctx.realm dir)
    (hscope : ctx.scope = (h.realm ctx.realm).lexical) (hscript : ctx.script = true)
    (hs : s.asks) : Asking (fun h r => Tells h r ∧ ∀ c, r = .ok c → c = .normal)
      ((machine (n + 4)).stmt ctx s) h := by
  obtain ⟨u, rfl⟩ := Stmt.of_asks hs
  obtain ⟨f, own, hname, hkind⟩ :=
    name_require (machine (n + 1)) { ctx with labels := [] } ha hscope
  have hcallable : h.callable (.obj f) = true := by
    rw [Heap.callable, Object.callable, hkind]
  have hcall : Asking Tells ((machine (n + 3)).expr { ctx with labels := [] }
      (.call (.name (key "require")) [.one (.str u)])) h := by
    have hcallee : (machine (n + 2)).callee { ctx with labels := [] } (.name (key "require")) h =
        .done (.ok (.undefined, .obj f), h) := Eval.bind_of_done hname
    have hargs : (machine (n + 2)).arguments { ctx with labels := [] } [.one (.str u)] h =
        .done (.ok [.str u], h) := rfl
    have hinvoke : (machine (n + 3)).expr { ctx with labels := [] }
        (.call (.name (key "require")) [.one (.str u)]) h =
        Machine.callRequire ctx.realm dir [.str u] h := by
      rw [machine_expr, Machine.evaluate, Eval.bind_of_done hcallee]
      simp only
      rw [Eval.bind_of_done hargs, Machine.invoke, Eval.read_bind, if_pos hcallable]
      exact call_require_eq hkind _ _ _
    rw [Asking, hinvoke]
    exact callRequire_str hn ha.inside u
  rw [machine_stmt, Machine.execute]
  refine hcall.bind (fun v h' hgo _ => ?_) fun e h' he => ⟨?_, by rintro _ ⟨⟩⟩
  · rw [Machine.keep]
    simp only [hscript, if_true]
    refine .completed hgo.neutral fun h'' hgo' => .done (.refl hgo'.neutral) ⟨?_, ?_⟩
    · rintro _ ⟨⟩
    · rintro _ ⟨⟩
      rfl
  · rintro _ ⟨⟩
    exact he e rfl

/-- Statements that ask for modules do so in order, until an answer is thrown. -/
theorem asking_sequence {realm : RealmRef} (hctx : ctx.realm = realm) (hscript : ctx.script = true)
    {body : List Stmt} (hb : ∀ s ∈ body, s.asks) (hn : h.Neutral) (ha : h.AsksFrom realm dir)
    (hscope : ctx.scope = (h.realm realm).lexical) :
    Asking Tells (standardMachine.sequence ctx body) h := by
  subst hctx
  induction body generalizing h with
  | nil => exact .pure hn
  | cons s rest ih =>
    have hs := asking_stmt (n := depthLimit - 4) hn ha hscope hscript (hb s List.mem_cons_self)
    rw [Machine.sequence]
    refine Asking.bind hs (fun c h' hgo hc => ?_) fun e h' he => ?_
    · obtain rfl : c = .normal := hc.2 c rfl
      refine ih (fun s hs => hb s (List.mem_cons_of_mem _ hs)) hgo.neutral
        (ha.retains hgo.toRetains) ?_
      rw [hscope, hgo.realm _ ha.inside]
    · rintro _ ⟨⟩
      exact he.1 e rfl

/-- Nothing is declared by statements that ask for modules. -/
theorem declare_of_asks {p : Program} (hvars : p.vars = []) (hb : ∀ s ∈ p.body, s.asks) (h : Heap) :
    p.declare ctx h = .done (.ok (), h) := by
  have hlexical := lexicalNames_of_asks hb
  have hfunctions := functionsOf_of_asks hb
  have hclash : h.clash? ctx.realm p = none := by
    simp [Heap.clash?, hlexical, hvars, Program.functionNames, hfunctions]
  rw [Program.declare, Eval.read_bind, hclash]
  simp only [hlexical, hfunctions, hvars]
  rfl

/-- A program that asks for modules and does nothing else. -/
theorem asking_run {p : Program} {realm : RealmRef} (hvars : p.vars = [])
    (hb : ∀ s ∈ p.body, s.asks) (hn : h.Neutral) (ha : h.AsksFrom realm dir) :
    Asking Tells (p.run realm) h := by
  rw [Program.run, Asking, Eval.read_bind]
  simp only
  refine Asking.completed hn fun h₁ h₁go => ?_
  have hbody (ctx : Context) (hrealm : ctx.realm = realm) (hscript : ctx.script = true)
      (hscope : ctx.scope = (h.realm realm).lexical) :
      Asking Tells (do
        p.declare ctx
        let _ ← standardMachine.sequence ctx p.body
        Eval.read Heap.completion : Eval Value) h₁ := by
    rw [Asking, Eval.bind_of_done (declare_of_asks hvars hb h₁)]
    refine Asking.bind (asking_sequence hrealm hscript hb h₁go.neutral
      (ha.retains h₁go.toRetains) ?_)
      (fun _ h₂ hgo _ => .done (.refl hgo.neutral) (by rintro _ ⟨⟩)) fun e h₂ he => ?_
    · rw [hscope, h₁go.realm _ ha.inside]
    · rintro _ ⟨⟩
      exact he e rfl
  refine (hbody _ rfl rfl rfl).outcome.bind (fun r h₂ h₂go hr => ?_) (by rintro e h' ⟨r', ⟨⟩, -⟩)
  obtain ⟨_, ⟨⟩, hr⟩ := hr
  refine Asking.completed h₂go.neutral fun h₃ h₃go => ?_
  have hold : Tells h₃ r := fun e he => h₃go.told (hr e he)
  split
  · exact Asking.raise h₃go.neutral realm .range "Maximum call stack size exceeded"
  · exact Asking.ofResult h₃go.neutral hold

/-- The text of a script that asks for modules and does nothing else. -/
theorem asking_runText {text : String} {realm : RealmRef} (ht : asksOnly text) (hn : h.Neutral)
    (ha : h.AsksFrom realm dir) : Asking Tells (runText realm false text) h := by
  rw [asksOnly, Bool.and_eq_true] at ht
  unfold runText
  cases hp : Program.parse false text with
  | error message => exact Asking.raise hn realm .syntactic message
  | ok p =>
    simp only [hp, Bool.and_eq_true, List.isEmpty_iff, List.all_eq_true] at ht
    exact asking_run ht.2.1 ht.2.2 hn ha

end Script
end LoadHook
