import LoadHook.Proofs.Module.Onward

/-!
# Steps of a module that keep the heap in order

The steps of a module ask for what they name, from the directory of the module, and leave the heap
in order, as long as what they ask for does. This holds for all steps, whether they end or fail, and
so for the handlers that run them.
-/
namespace LoadHook

open Script (Value RealmRef Ref Heap Eval Key Object Among Abrupt ground standardMachine)
open Host (homeRealm)

namespace Script

variable {α β : Type} {h h' g : Heap} {r : Ref} {k : Key} {v : Value}

/-! ## Reading data -/

/-- A computation leaves the heap as it is, or stops with an error that it adds. -/
inductive Reads (x : Eval α) (h : Heap) : Prop
  | value (a : α) : x h = .done (.ok a, h) → Reads x h
  | stopped (e : Abrupt) (g : Heap) : x h = .done (.error e, g) → h.Extends g →
      (Load.failureOf e).Told g → Reads x h

namespace Reads

variable {x : Eval α} {f : α → Eval β}

theorem pure (a : α) : Reads (Pure.pure a : Eval α) h := .value a rfl

/-- Going on after a value that has been read. -/
theorem after {a : α} (hx : x h = .done (.ok a, h)) (hf : Reads (f a) h) : Reads (x >>= f) h := by
  have hbind : (x >>= f) h = f a h := Eval.bind_of_done hx
  cases hf with
  | value b hb => exact .value b (hbind.trans hb)
  | stopped e g he ext htold => exact .stopped e g (hbind.trans he) ext htold

theorem bind (hx : Reads x h) (hf : ∀ a, Reads (f a) h) : Reads (x >>= f) h := by
  cases hx with
  | value a ha => exact .after ha (hf a)
  | stopped e g he ext htold => exact .stopped e g (Eval.bind_of_stopped he) ext htold

theorem collect {l : List α} (hf : ∀ a ∈ l, Reads (f a) h) : Reads (Eval.collect f l) h := by
  induction l with
  | nil => exact .pure []
  | cons a rest ih =>
    refine .bind (hf a List.mem_cons_self) fun b => .bind (ih fun c hc => ?_) fun bs => .pure _
    exact hf c (List.mem_cons_of_mem a hc)

theorem raise (realm : RealmRef) (kind : ErrorKind) (text : String) :
    Reads (raise realm kind text : Eval α) h := by
  obtain ⟨g, hg, ext, hreports⟩ := raise_done α realm kind text h
  exact .stopped _ g hg ext (.inl ⟨_, _, _, rfl, hreports, rfl⟩)

end Reads

theorem Heap.Datum.not_callable (hv : h.Datum v) : h.callable v = false := by
  cases v with
  | obj r => exact Object.callable_of_isData (hv r rfl).like.data
  | _ => rfl

section Grounded

variable (m : Machine) (realm : RealmRef) (hg : ground.Extends h)
include hg

/-- Data are shown as they are. -/
theorem shown_datum (holder : Value) (k : Key) (hv : h.Datum v) :
    BuiltIn.shown m realm none holder k v h = .done (.ok v, h) := by
  cases v with
  | obj r =>
    have hr := hv r rfl
    obtain ⟨f, hf, hfs⟩ := getRef_datum m realm hg hr (.inr fun t ht => foundAbove_toJsonKey ht)
    have hunwrap : BuiltIn.unwrap m realm (.obj r) h = .done (.ok (.obj r), h) := by
      simp only [BuiltIn.unwrap, Eval.read_bind]
      rcases Object.kind_of_isData hr.like.data with hkind | hkind <;> simp only [hkind] <;> rfl
    unfold BuiltIn.shown
    refine (Eval.bind_of_done (x := m.getRef realm r (Script.key "toJSON")) hf).trans ?_
    rw [Eval.read_bind, hfs.not_callable]
    exact hunwrap
  | _ => rfl

/-- What data show is read, however they are entangled: where they stand in themselves an error is
thrown. -/
theorem reads_snapshot (fuel : Nat) {above : List Ref} (holder : Value) (k : Key)
    (hv : h.Datum v) :
    Reads (BuiltIn.snapshot m realm ⟨none, none⟩ fuel above holder k v) h := by
  induction fuel generalizing above holder k v with
  | zero => exact .stopped .overflow h rfl (.refl h) (.inl ⟨_, rfl⟩)
  | succ fuel ih =>
    unfold BuiltIn.snapshot
    refine .after (shown_datum m realm hg holder k hv) ?_
    cases v with
    | obj r =>
      have hr := hv r rfl
      refine .after (x := Eval.read (·.object r)) rfl ?_
      simp only [Object.callable_of_isData hr.like.data, Bool.false_eq_true, if_false]
      split
      · exact .raise _ _ _
      · split
        · next harray =>
          obtain ⟨l, hl, -⟩ := lengthOf_like m realm (among_exact h.Data) hr.like harray
          refine .after hl (.bind (.collect fun j _ => ?_) fun items => .pure _)
          obtain ⟨u, hu, hitem⟩ := getRef_datum m realm hg hr (k := natKey j)
            (.inr fun t ht => foundAbove_of_isDigits ht (isDigits_natKey j))
          exact .after hu (ih _ _ hitem)
        · refine .bind (.collect fun k hk => ?_) fun members => .pure _
          obtain ⟨u, hu, hmember⟩ := getRef_datum m realm hg hr
            (.inl (Object.own_of_mem_shownKeys hk))
          exact .after hu (.bind (ih _ _ hmember) fun _ => .pure _)
    | _ => exact .pure _

theorem reads_documentOf (hv : h.Datum v) : Reads (BuiltIn.documentOf m realm v) h :=
  reads_snapshot m realm hg _ _ _ hv

end Grounded

/-! ## Scripts that keep the heap in order -/

/-- A computation asks for nothing and keeps the heap in order: it comes to a value for which
something holds, or stops with what can be told. -/
inductive Settles (Q : Heap → α → Prop) (x : Eval α) (h : Heap) : Prop
  | value {a : α} {g : Heap} : x h = .done (.ok a, g) → h.Steady g → Q g a → Settles Q x h
  | stopped {e : Abrupt} {g : Heap} : x h = .done (.error e, g) → h.Steady g →
      (Load.failureOf e).Told g → Settles Q x h

namespace Settles

variable {Q : Heap → α → Prop} {R : Heap → β → Prop} {x : Eval α} {f : α → Eval β}

theorem bind (hx : Settles Q x h) (hf : ∀ a g, h.Onward g → Q g a → Settles R (f a) g) :
    Settles R (x >>= f) h := by
  cases hx with
  | @value a g ha hgo hq =>
    have hbind : (x >>= f) h = f a g := Eval.bind_of_done ha
    cases hf a g hgo.toOnward hq with
    | value hb hgo' hr => exact .value (hbind.trans hb) (hgo.trans hgo') hr
    | stopped he hgo' htold => exact .stopped (hbind.trans he) (hgo.trans hgo') htold
  | stopped he hgo htold => exact .stopped (Eval.bind_of_stopped he) hgo htold

theorem of_reads (hg : ground.Extends h) (hx : Reads x h) : Settles (fun _ _ => True) x h := by
  cases hx with
  | value a ha => exact .value ha (.refl hg) trivial
  | stopped e g he ext htold => exact .stopped he (.of_extends hg ext) htold

end Settles

/-- Assigning data to data. -/
theorem settles_assign (realm : RealmRef) (hg : ground.Extends h) (hr : h.Data r) (k : Key)
    (hv : h.Datum v) :
    Settles (fun _ _ => True) (standardMachine.assign realm true (.obj r) k v) h := by
  obtain ⟨q, own, x, hq, hx, hassign⟩ := assign_datum realm hg hr k hv
  have hput := Heap.Steady.withObject hg hr hq
  rcases hx with rfl | ⟨kind, text, rfl⟩
  · exact .value hassign hput trivial
  · obtain ⟨g, he, ext, hreports⟩ := raise_done Unit own kind text (h.withObject r q)
    exact .stopped (hassign.trans he) (hput.trans (.of_extends hput.grounded ext))
      (.inl ⟨_, _, _, rfl, hreports, rfl⟩)

/-- Reading a text. -/
theorem settles_parseJson (hg : ground.Extends h) (us : Text.Utf16) :
    Settles Heap.Datum (BuiltIn.parseJson homeRealm us) h := by
  rcases parseJson_datum hg us with ⟨v, g, hv, ext, hdatum⟩ | hraise
  · exact .value hv (.of_extends hg ext) hdatum
  · obtain ⟨g, he, ext, hreports⟩ := raise_done Value homeRealm .syntactic "unexpected token" h
    exact .stopped (hraise.trans he) (.of_extends hg ext) (.inl ⟨_, _, _, rfl, hreports, rfl⟩)

/-- A new plain object that holds data. -/
theorem settles_newObject (hg : ground.Extends h) {props : List (Key × Value)}
    (hprops : ∀ p ∈ props, h.Datum p.2) :
    Settles Heap.Datum (newObject homeRealm props) h := by
  have hlike : Object.Like (Among h.Data)
      ⟨.plain, some (h.realm homeRealm).objectProto, true, props.map fun p => (p.1, .plain p.2)⟩
      ⟨.plain, some (h.realm homeRealm).objectProto, true,
        props.map fun p => (p.1, .plain p.2)⟩ := by
    refine ⟨rfl, rfl, ⟨rfl, rfl⟩, ?_, List.forall₂_same.mpr fun e he => ?_, by rintro ⟨⟩⟩
    · rw [hg.realm]
      exact .top (.inl rfl)
    · obtain ⟨p, hp, rfl⟩ := List.mem_map.mp he
      exact ⟨rfl, .plain ⟨rfl, hprops p hp⟩⟩
  refine .value (Eval.update_apply _) (.of_extends hg (.addObject _ _)) ?_
  rintro r ⟨⟩
  exact Heap.data_addObject hg hlike

end Script

/-! ## Steps of a load -/

/-- A workspace goes on from another one in order. -/
structure Workspace.Onward (w w' : Workspace) : Prop where
  world : w'.world = w.world
  heap : w.heap.Onward w'.heap

/-- A workspace goes on from another one in order, and no module is marked in between. -/
structure Workspace.Steady (w w' : Workspace) : Prop where
  world : w'.world = w.world
  heap : w.heap.Steady w'.heap

namespace Workspace

variable {w w' w'' : Workspace}

theorem Onward.trans (a : w.Onward w') (b : w'.Onward w'') : w.Onward w'' :=
  ⟨b.world.trans a.world, a.heap.trans b.heap⟩

theorem Onward.refl (hg : ground.Extends w.heap) : w.Onward w := ⟨rfl, .refl hg⟩

theorem Steady.onward (a : w.Steady w') : w.Onward w' := ⟨a.world, a.heap.toOnward⟩

theorem Steady.trans (a : w.Steady w') (b : w'.Steady w'') : w.Steady w'' :=
  ⟨b.world.trans a.world, a.heap.trans b.heap⟩

theorem Steady.refl (hg : ground.Extends w.heap) : w.Steady w := ⟨rfl, .refl hg⟩

end Workspace

/-- A requirement is answered by data, or by a thrown value that can be told. -/
inductive Script.Heap.Answers (h : Heap) : Except Value Value → Prop
  | value {v : Value} : h.Datum v → Answers h (.ok v)
  | thrown {v : Value} : (Failure.thrown v).Told h → Answers h (.error v)

/-- A step of a load that is under way keeps the workspace in order, marks no module by itself and
asks for certain modules only: it comes to a value for which something holds, or fails with what can
be told. -/
inductive Orderly {α : Type} (C : Requirement → Prop) (Q : Workspace → α → Prop) :
    Workspace → Talk (Except Failure α × Workspace) → Prop
  | done {w w' : Workspace} {a : α} : w.Steady w' → Q w' a → Orderly C Q w (.done (.ok a, w'))
  | failed {w w' : Workspace} {e : Failure} : w.Steady w' → e.Told w'.heap →
      Orderly C Q w (.done (.error e, w'))
  | ask {w w' : Workspace} {q : Requirement} {next} : w.Steady w' → C q →
      (∀ w'' a, w'.Onward w'' → w''.heap.Answers a → Orderly C Q w'' (next a w'')) →
      Orderly C Q w (.ask q w' next)

namespace Orderly

variable {α β : Type} {C : Requirement → Prop} {Q : Workspace → α → Prop}
  {R : Workspace → β → Prop} {w w' : Workspace} {x : Load α} {k : α → Load β} {h : Heap}

theorem lead {t : Talk (Except Failure α × Workspace)} (ht : Orderly C Q w' t)
    (hw : w.Steady w') : Orderly C Q w t := by
  cases ht with
  | done h hq => exact .done (hw.trans h) hq
  | failed h he => exact .failed (hw.trans h) he
  | ask h hq hnext => exact .ask (hw.trans h) hq hnext

/-- One step after another. -/
theorem bind (hx : Orderly C Q w (x w))
    (hk : ∀ w' a, w.Onward w' → Q w' a → Orderly C R w' (k a w')) :
    Orderly C R w ((x >>= k) w) := by
  change Orderly C R w (Load.bind x k w)
  unfold Load.bind
  generalize x w = t at hx
  induction hx with
  | done h hq => exact (hk _ _ h.onward hq).lead h
  | failed h he => exact .failed h he
  | ask h hq _ ih =>
    exact .ask h hq fun w'' a h' ha =>
      ih w'' a h' ha fun w₃ b h'' => hk w₃ b ((h.onward.trans h').trans h'')

/-- A step that is done at once changes nothing. -/
theorem still {a : α} (hg : ground.Extends w.heap) (hx : x w = .done (.ok a, w)) (hq : Q w a) :
    Orderly C Q w (x w) := by
  rw [hx]
  exact .done (.refl hg) hq

/-- A step that fails at once. -/
theorem fail {e : LoadError} (hg : ground.Extends w.heap)
    (hx : x w = .done (.error (.error e), w)) : Orderly C Q w (x w) := by
  rw [hx]
  exact .failed (.refl hg) (.inl ⟨e, rfl⟩)

theorem script {y : Eval α} {P : Heap → α → Prop} (hy : Script.Settles P y w.heap) :
    Orderly C (fun w => P w.heap) w (Load.script y w) := by
  cases hy with
  | value ha h hp =>
    rw [Load.script_of_done ha]
    exact .done ⟨rfl, h⟩ hp
  | stopped he h htold =>
    have hrun : Load.script y w = _ := congrArg (Load.ofRun w) he
    rw [hrun]
    exact .failed ⟨rfl, h⟩ htold

/-- The outcome of a step, whatever it is. -/
theorem outcome (hx : Orderly C Q w (x w)) :
    Orderly C (fun w r => (∃ a, r = .ok a ∧ Q w a) ∨ ∃ e, r = .error e ∧ e.Told w.heap) w
      (Load.outcome x w) := by
  unfold Load.outcome
  generalize x w = t at hx
  induction hx with
  | done h hq => exact .done h (.inl ⟨_, rfl, hq⟩)
  | failed h he => exact .done h (.inr ⟨_, rfl, he⟩)
  | ask h hq _ ih => exact .ask h hq ih

end Orderly

/-! ## Module objects -/

section Module

variable {C : Requirement → Prop} {w : Workspace} {p : Path} {m : Ref} {v : Value}
  (hg : ground.Extends w.heap)
include hg

/-- A copy of data is made of what they show. -/
theorem orderly_copy (hv : w.heap.Datum v) :
    Orderly C (fun w v => w.heap.Datum v) w (ModuleStep.copy homeRealm v w) := by
  have hread := Script.Settles.of_reads hg
    (Script.reads_documentOf standardMachine homeRealm hg hv)
  refine .script (P := Heap.Datum) (hread.bind fun d g hgo _ => ?_)
  cases d with
  | some d => exact Script.settles_parseJson hgo.grounded _
  | none => exact .value rfl (.refl hgo.grounded) (Heap.datum_of_ref? rfl)

theorem orderly_textProperty {name : String} {text : String}
    (hname : w.heap.own m (Script.key name) = some (.plain (.text text))) :
    Orderly C (fun _ _ => True) w (Load.textProperty homeRealm m name w) := by
  have hproperty : Load.property homeRealm m name w = .done (.ok (.text text), w) :=
    Load.script_of_done (Script.Machine.getRef_of_holds _ ⟨true, true, true, hname⟩)
  have hread : Load.textProperty homeRealm m name w = .done (.ok text, w) := by
    have htext : Load.read (fun w => Script.textOf w.heap (.text text)) w =
        .done (.ok (.ok text), w) := by
      simp only [Load.read, Script.textOf, Value.text, Script.key, Text.Utf16.toString?_ofString]
    rw [Load.textProperty, Load.bind_of_done hproperty, Load.bind_of_done htext]
    rfl
  exact .still hg hread trivial

variable (hm : w.heap.ModuleAt p m)
include hm

theorem orderly_exports :
    Orderly C (fun w v => w.heap.Datum v) w (Load.exports homeRealm m w) := by
  obtain ⟨v, hv, hdata⟩ := hm.exports
  exact .still hg (exports_of_holds ⟨true, true, true, hv⟩) hdata

theorem orderly_setExports (hv : w.heap.Datum v) :
    Orderly C (fun _ _ => True) w (Load.setExports homeRealm m v w) := by
  obtain ⟨u, hu, -⟩ := hm.exports
  have hordinary : (w.heap.object m).Ordinary exportsKey := .inl (by rw [Object.isArray, hm.kind])
  have hassign : standardMachine.assign homeRealm true (.obj m) exportsKey v w.heap = _ :=
    Script.Machine.assign_own standardMachine hu hordinary
  exact .script (P := fun _ _ => True)
    (.value hassign (.putModule hg hm (by decide) fun p hm => hm.putExports hv) trivial)

theorem orderly_filename :
    Orderly C (fun _ file => file = p) w (Load.filename homeRealm m w) :=
  .still hg (filename_of_holds_path ⟨true, true, true, hm.filename⟩) rfl

/-- The steps set members of exports that are data. -/
theorem orderly_put (name : String) (hv : w.heap.Datum v) :
    Orderly C (fun _ _ => True) w (ModuleStep.put homeRealm m name v w) := by
  unfold ModuleStep.put
  refine (orderly_exports hg hm).bind fun w' u hw hu => ?_
  cases u with
  | obj r =>
    exact .script
      (Script.settles_assign homeRealm hw.heap.grounded (hu r rfl) _ (hw.heap.datum hv))
  | _ => exact .fail hw.heap.grounded rfl

theorem orderly_ask {specifier : String} (hC : C ⟨specifier, p.parent.getD "", homeRealm⟩) :
    Orderly C (fun w v => w.heap.Datum v) w (ModuleStep.ask homeRealm m specifier w) := by
  obtain ⟨r, hr, hkind⟩ := hm.require
  rw [ModuleStep.ask_eq hr hkind]
  refine .ask (.refl hg) hC fun w' a hw ha => ?_
  cases ha with
  | value hv => exact .done (.refl hw.heap.grounded) hv
  | thrown htold => exact .failed (.refl hw.heap.grounded) htold

/-- What a module says of itself is data. -/
theorem orderly_about :
    Orderly C (fun w v => w.heap.Datum v) w (ModuleStep.about homeRealm m w) := by
  unfold ModuleStep.about
  refine (orderly_textProperty hg hm.id).bind fun w₁ id h₁ _ => ?_
  have hm₁ := h₁.heap.modules p m hm
  refine (orderly_textProperty h₁.heap.grounded hm₁.filename).bind fun w₂ file h₂ _ => ?_
  have hm₂ := h₂.heap.modules p m hm₁
  refine Orderly.bind (Q := fun _ _ => True) ?_ fun w₃ dir h₃ _ => ?_
  · exact (orderly_filename h₂.heap.grounded hm₂).bind fun w' _ h' _ =>
      .done (.refl h'.heap.grounded) trivial
  have hm₃ := h₃.heap.modules p m hm₂
  obtain ⟨b, hb⟩ := hm₃.loaded
  have hloaded : Load.property homeRealm m "loaded" w₃ = .done (.ok (.bool b), w₃) :=
    Load.script_of_done (Script.Machine.getRef_of_holds _ ⟨true, true, true, hb⟩)
  refine (Orderly.still h₃.heap.grounded hloaded (Q := fun _ v => v.ref? = none) rfl).bind
    fun w₄ loaded h₄ hvalue => ?_
  refine .script (Script.settles_newObject h₄.heap.grounded ?_)
  simp only [List.forall_mem_cons]
  exact ⟨Heap.datum_of_ref? rfl, Heap.datum_of_ref? rfl, Heap.datum_of_ref? rfl,
    Heap.datum_of_ref? hvalue, nofun⟩

end Module

/-- What has failed is told without running a script. -/
theorem caught_of_told {w : Workspace} {e : Failure} (realm : RealmRef) (he : e.Told w.heap) :
    ∃ err, Load.caught realm e w = .done (.ok err, w) := by
  rcases he with ⟨err, hleaves⟩ | rfl
  · exact ⟨err, Load.caught_of_leaves realm hleaves⟩
  · exact ⟨_, rfl⟩

/-- So is the value that is thrown for it. -/
theorem throwable_of_told {w : Workspace} {e : Failure} (realm : RealmRef) (he : e.Told w.heap) :
    ∃ v h, Load.throwable realm e w = .done (.ok v, { w with heap := h }) ∧ w.heap.Extends h ∧
      (Failure.thrown v).Told h := by
  rcases he with ⟨err, hleaves⟩ | rfl
  · obtain ⟨r, h, hdone, ext, hreports⟩ := Load.throwable_of_leaves realm hleaves
    exact ⟨_, h, hdone, ext, .inl ⟨_, _, _, rfl, hreports, rfl⟩⟩
  · exact ⟨.undefined, w.heap, rfl, .refl _, .inr rfl⟩

/-! ## Steps -/

section Steps

variable {C : Requirement → Prop} {w : Workspace} {p : Path} {m : Ref}

/-- A step keeps the heap in order and asks for what it names. -/
theorem orderly_run (hg : ground.Extends w.heap) (hm : w.heap.ModuleAt p m) {step : ModuleStep}
    (hC : ∀ specifier ∈ step.asked, C ⟨specifier, p.parent.getD "", homeRealm⟩) :
    Orderly C (fun _ _ => True) w (step.run homeRealm m w) := by
  have hput {w' : Workspace} {v : Value} (name : String) (hw : w.Onward w')
      (hv : w'.heap.Datum v) :
      Orderly C (fun _ _ => True) w' (ModuleStep.put homeRealm m name v w') :=
    orderly_put hw.heap.grounded (hw.heap.modules p m hm) name hv
  have hset {w' : Workspace} {v : Value} (hw : w.Onward w') (hv : w'.heap.Datum v) :
      Orderly C (fun _ _ => True) w' (Load.setExports homeRealm m v w') :=
    orderly_setExports hw.heap.grounded (hw.heap.modules p m hm) hv
  have hask {w' : Workspace} {specifier : String} (hw : w.Onward w')
      (hs : specifier ∈ step.asked) :
      Orderly C (fun w v => w.heap.Datum v) w' (ModuleStep.ask homeRealm m specifier w') :=
    orderly_ask hw.heap.grounded (hw.heap.modules p m hm) (hC specifier hs)
  have hstart : w.Onward w := .refl hg
  unfold ModuleStep.run
  cases step with
  | set name value =>
    exact (Orderly.script (Script.settles_parseJson hg _)).bind fun w' v hw hv => hput name hw hv
  | replace value =>
    exact (Orderly.script (Script.settles_parseJson hg _)).bind fun w' v hw hv => hset hw hv
  | require specifier name =>
    exact (hask hstart List.mem_cons_self).bind fun w' v hw hv => hput name hw hv
  | adopt specifier => exact (hask hstart List.mem_cons_self).bind fun w' v hw hv => hset hw hv
  | snapshot specifier name =>
    refine (hask hstart List.mem_cons_self).bind fun w₁ v h₁ hv => ?_
    refine (orderly_copy h₁.heap.grounded hv).bind fun w₂ u h₂ hu => ?_
    exact hput name (h₁.trans h₂) hu
  | same first second name =>
    refine (hask hstart List.mem_cons_self).bind fun w₁ a h₁ _ => ?_
    refine (hask h₁ (by simp [ModuleStep.asked])).bind fun w₂ b h₂ _ => ?_
    exact hput name (h₁.trans h₂) (Heap.datum_of_ref? rfl)
  | «try» specifier name =>
    refine (hask hstart List.mem_cons_self).outcome.bind fun w₁ r h₁ hr => ?_
    rcases hr with ⟨v, rfl, -⟩ | ⟨e, rfl, he⟩
    · exact hput name h₁ (Heap.datum_of_ref? rfl)
    · obtain ⟨err, hcaught⟩ := caught_of_told homeRealm he
      exact (Orderly.still h₁.heap.grounded hcaught (Q := fun _ _ => True) trivial).bind
        fun w₂ _ h₂ _ => hput name (h₁.trans h₂) (Heap.datum_of_ref? rfl)
  | info name => exact (orderly_about hg hm).bind fun w' v hw hv => hput name hw hv
  | throw message =>
    obtain ⟨g, he, ext, hreports⟩ := hostError_done homeRealm message w.heap
    refine .script (P := fun _ _ => True) (.stopped (Eval.bind_of_done he) (.of_extends hg ext) ?_)
    exact .inl ⟨_, _, _, rfl, hreports, rfl⟩
  | fail specifier dir => exact .fail hg rfl

/-- So do steps one after another. -/
theorem orderly_runAll (hg : ground.Extends w.heap) (hm : w.heap.ModuleAt p m)
    {steps : List ModuleStep} (hC : ∀ step ∈ steps, ∀ specifier ∈ step.asked,
      C ⟨specifier, p.parent.getD "", homeRealm⟩) :
    Orderly C (fun _ _ => True) w (ModuleStep.runAll homeRealm m steps w) := by
  induction steps generalizing w with
  | nil => exact .done (.refl hg) trivial
  | cons step rest ih =>
    refine (orderly_run hg hm (hC step List.mem_cons_self)).bind fun w' _ hw _ => ?_
    exact ih hw.heap.grounded (hw.heap.modules p m hm)
      fun step hs => hC step (List.mem_cons_of_mem _ hs)

end Steps

/-! ## Handlers -/

/-- The handlers of modules that are given without a script: as steps, as data, or not at all. -/
inductive Handler.Listed : Handler → Prop
  | steps : Listed .steps
  | json : Listed .json
  | inert : Listed .inert

section Handlers

variable {C : Requirement → Prop} {w : Workspace} {p : Path} {m : Ref}
  (hg : ground.Extends w.heap) (hm : w.heap.ModuleAt p m)
include hg hm

/-- Reading the file of a module, which may fail. -/
theorem orderly_file {k : String → Load Unit}
    (hk : ∀ w' text, w.Onward w' → w.world.tree.readText p = .ok text →
      Orderly C (fun _ _ => True) w' (k text w')) :
    Orderly C (fun _ _ => True) w ((do
      let file ← Load.filename homeRealm m
      k (← Load.readFile file)) w) := by
  refine (orderly_filename hg hm).bind fun w' file hw hfile => ?_
  subst hfile
  cases htext : w.world.tree.readText file with
  | ok text =>
    have hread := Load.readFile_of_ok (w := w') (hw.world ▸ htext)
    exact (Orderly.still hw.heap.grounded hread (Q := fun _ a => a = text) rfl).bind
      fun w'' _ h' ha => ha ▸ hk w'' text (hw.trans h') htext
  | error cause =>
    have hread := Load.readFile_of_error (w := w') (hw.world ▸ htext)
    exact (Orderly.fail hw.heap.grounded hread (Q := fun _ _ => False)).bind
      fun _ _ _ hfalse => hfalse.elim

theorem orderly_steps {h : Host} (hworld : w.world = h.workspace.world)
    (hC : ∀ step ∈ h.program p, ∀ specifier ∈ step.asked,
      C ⟨specifier, p.parent.getD "", homeRealm⟩) :
    Orderly C (fun _ _ => True) w (Handler.steps homeRealm m w) := by
  refine orderly_file hg hm fun w' text hw htext => ?_
  unfold Host.program at hC
  rw [← hworld, htext] at hC
  cases hj : Json.parse text with
  | error fault => exact .fail hw.heap.grounded rfl
  | ok j =>
    simp only [hj] at hC
    exact orderly_runAll hw.heap.grounded (hw.heap.modules p m hm) hC

theorem orderly_json : Orderly C (fun _ _ => True) w (Handler.json homeRealm m w) := by
  refine orderly_file hg hm fun w₁ text h₁ _ => ?_
  refine Orderly.bind (Q := fun _ _ => True) ?_ fun w₂ _ h₂ _ => ?_
  · unfold Load.withoutNul
    by_cases hz : (text.toList.takeWhile (· != '\x00')).length < text.length
    · simp only [hz, if_true]
      exact .fail h₁.heap.grounded rfl
    · simp only [hz, if_false]
      exact .done (.refl h₁.heap.grounded) trivial
  · refine (Orderly.script (Script.settles_parseJson h₂.heap.grounded _)).bind fun w₃ v h₃ hv => ?_
    exact orderly_setExports h₃.heap.grounded
      (((h₁.trans h₂).trans h₃).heap.modules p m hm) hv

/-- The handler of a module keeps the heap in order and asks for what stands in the file of the
module. -/
theorem orderly_handlerFor {h : Host} (hworld : w.world = h.workspace.world)
    (hlisted : (h.registry.handlerFor p).Listed)
    (hC : ∀ specifier, h.Asks p specifier → C ⟨specifier, p.parent.getD "", homeRealm⟩) :
    Orderly C (fun _ _ => True) w (h.registry.handlerFor p homeRealm m w) := by
  unfold Host.Asks at hC
  generalize h.registry.handlerFor p = f at hlisted hC
  cases hlisted with
  | steps =>
    exact orderly_steps hg hm hworld fun step hs specifier hsp => hC specifier ⟨rfl, step, hs, hsp⟩
  | json => exact orderly_json hg hm
  | inert => exact .done (.refl hg) trivial

end Handlers

end LoadHook
