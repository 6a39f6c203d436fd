import LoadHook.Proofs.Fence.Expression
import LoadHook.Script.Statement

/-!
# Statements outside of a fence

Every kind of statement ends with nothing from behind the fence, as long as its parts do. The scopes
that it makes lie inside of the one that it runs in.
-/
namespace LoadHook.Script.Fence

variable {F : Fence} {n : Nat} {m : Machine} (hm : F.Trusts m) {ctx : Context}
  (hctx : F.FreeContext ctx) {v : Value}

/-- If there is an end of a loop, it is free. -/
def FreeEnd (F : Fence) (o : Option Completion) : Prop := ∀ c, o = some c → F.FreeCompletion c

theorem holds_keep (hv : F.FreeValue v) : F.Holds n (fun _ => True) (Machine.keep ctx v) :=
  .ite (.change fun _ hs => hs.withCompletion hv) (.pure trivial)

include hctx

theorem holds_copyScope : F.Holds n F.FreeContext (Machine.copyScope ctx) :=
  (Holds.update fun _ hs => ⟨hs.freeScope_new, hs.addScope (hs.scope _ hctx.scope)⟩).map
    fun _ hscope => hctx.withScope hscope

include hm

theorem holds_runBlock (body : List Stmt) :
    F.Holds n F.FreeCompletion (m.runBlock ctx body) :=
  .ite (holds_sequence hm hctx body) <| (holds_inner hctx).bind fun _ hctx =>
    (holds_prepare hctx body).bind fun _ _ => holds_sequence hm hctx body

/-! ## Declarations -/

theorem holds_declare (binder : Binder) (targets : List Target) :
    F.Holds n (fun _ => True) (m.declare ctx binder targets) := by
  induction targets with
  | nil => exact .pure trivial
  | cons target rest ih =>
    cases target with
    | hole => exact ih
    | bind p e =>
      unfold Machine.declare
      split
      · exact ih
      · exact (hm.expr _ hctx).bind fun _ hv => (hm.bind _ _ hctx hv).bind fun _ _ => ih
      · exact (hm.bind _ _ hctx freeValue_undefined).bind fun _ _ => ih
      · exact (hm.expr _ hctx).bind fun _ hv => (hm.bind _ _ hctx hv).bind fun _ _ => ih

theorem holds_raiseFunction (f : Func) :
    F.Holds n (fun _ => True) (m.raiseFunction ctx f) :=
  .ite ((holds_name hm hctx f.name).bind fun _ hv =>
    holds_assignName hm (hctx.withScope hctx.vars) f.name hv) (.pure trivial)

/-! ## Loops -/

theorem holds_round (labels : List Key) (body : Stmt) :
    F.Holds n F.FreeEnd (m.round ctx labels body) := by
  refine (hm.stmt body hctx).map fun c hc d hd => ?_
  unfold Machine.loopEnd at hd
  split at hd
  · cases hd
  · cases hd
  · split at hd
    · cases hd
    · cases hd
      trivial
  · cases hd
    trivial
  · cases hd
    exact hc

theorem holds_whileLoop (labels : List Key) (test : Expr) (body : Stmt) :
    F.Holds n F.FreeCompletion (m.whileLoop ctx labels test body) := by
  refine .loop (P := fun _ => True) trivial (fun _ _ => ?_) _
  refine (hm.expr test hctx).bind fun _ _ => .ite ?_ (.pure trivial)
  refine (holds_round hm hctx labels body).bind fun c hc => ?_
  cases c with
  | none => exact .pure trivial
  | some c => exact .pure (hc c rfl)

theorem holds_doLoop (labels : List Key) (body : Stmt) (test : Expr) :
    F.Holds n F.FreeCompletion (m.doLoop ctx labels body test) := by
  refine .loop (P := fun _ => True) trivial (fun _ _ => ?_) _
  refine (holds_round hm hctx labels body).bind fun c hc => ?_
  cases c with
  | none => exact (hm.expr test hctx).bind fun _ _ => .ite (.pure trivial) (.pure trivial)
  | some c => exact .pure (hc c rfl)

omit hctx in
theorem holds_forRounds (hctx : F.FreeContext ctx) (labels : List Key) (copies : Bool)
    (test step : Option Expr) (body : Stmt) :
    F.Holds n F.FreeCompletion (m.forRounds ctx labels copies test step body) := by
  refine .loop (P := F.FreeContext) hctx (fun ctx hctx => ?_) _
  extract_lets next rest
  have hnext {ctx : Context} (hctx : F.FreeContext ctx) :
      F.Holds n (Sum.elim F.FreeContext F.FreeCompletion) (next ctx) := by
    cases step with
    | none => exact .pure hctx
    | some e => exact (hm.expr e hctx).bind fun _ _ => .pure hctx
  have hrest (goesOn : Bool) :
      F.Holds n (Sum.elim F.FreeContext F.FreeCompletion) (rest goesOn) := by
    refine .ite ((holds_round hm hctx labels body).bind fun c hc => ?_) (.pure trivial)
    cases c with
    | some c => exact .pure (hc c rfl)
    | none =>
      exact .ite ((holds_copyScope hctx).bind fun _ hctx => hnext hctx)
        (.pure_bind (hnext hctx))
  split
  · exact (hm.expr _ hctx).bind fun _ _ => .pure_bind (hrest _)
  · exact .pure_bind (hrest _)

theorem holds_forLoop (labels : List Key) (init : Stmt) (test step : Option Expr) (body : Stmt) :
    F.Holds n F.FreeCompletion (m.forLoop ctx labels init test step body) := by
  unfold Machine.forLoop
  dsimp only
  split
  · split
    · exact (hm.expr _ hctx).bind fun _ _ => holds_forRounds hm hctx _ _ _ _ _
    · exact (hm.stmt _ hctx).bind fun _ _ => holds_forRounds hm hctx _ _ _ _ _
  · refine (holds_inner hctx).bind fun ctx hctx => (holds_announce hctx.scope _).bind fun _ _ => ?_
    exact (hm.stmt init hctx).bind fun _ _ => (holds_copyScope hctx).bind fun ctx hctx =>
      holds_forRounds hm hctx _ _ _ _ _

theorem holds_eachRound (labels : List Key) (binder : Option Binder) (names : List Key)
    (target : Pattern) (body : Stmt) (hv : F.FreeValue v) :
    F.Holds n F.FreeEnd (m.eachRound ctx labels binder names target body v) := by
  unfold Machine.eachRound
  split
  case h_3 => exact (hm.bind _ _ hctx hv).bind fun _ _ => holds_round hm hctx labels body
  all_goals
    refine (holds_inner hctx).bind fun ctx hctx => (holds_announce hctx.scope _).bind fun _ _ => ?_
    exact (hm.bind _ _ hctx hv).bind fun _ _ => holds_round hm hctx labels body

omit hm hctx

/-- A loop over what is there goes round with nothing from behind the fence. -/
theorem holds_keyLoop {round : Value → Eval (Option Completion)}
    (hround : ∀ {n v}, F.FreeValue v → F.Holds n F.FreeEnd (round v)) (hv : F.FreeValue v) :
    F.Holds n F.FreeCompletion (Machine.keyLoop ctx round v) := by
  refine .ite (.pure trivial) ((holds_toObject _ hv).bind fun r _ => .read_bind fun h _ => ?_)
  refine .loop (P := fun _ => True) trivial (fun keys _ => ?_) _
  cases keys with
  | nil => exact .pure trivial
  | cons k rest =>
    refine .read_bind fun h _ => .ite (.pure trivial) ((hround freeValue_str).bind fun c hc => ?_)
    cases c with
    | none => exact .pure trivial
    | some c => exact .pure (hc c rfl)

include hm in
theorem holds_valueLoop {round : Value → Eval (Option Completion)}
    (hround : ∀ {n v}, F.FreeValue v → F.Holds n F.FreeEnd (round v)) (hv : F.FreeValue v) :
    F.Holds n F.FreeCompletion (m.valueLoop ctx round v) := by
  refine .loop (P := fun _ => True) trivial (fun i _ => ?_) _
  refine (holds_element? hm hv i).bind fun x hx => ?_
  cases x with
  | none => exact .pure trivial
  | some x =>
    refine (hround (freeValue?_some.mp hx)).bind fun c hc => ?_
    cases c with
    | none => exact .pure trivial
    | some c => exact .pure (hc c rfl)

/-! ## Other statements -/

include hm hctx

theorem holds_handle (names : List Key) (param : Option Pattern) (handler : List Stmt)
    (hv : F.FreeValue v) :
    F.Holds n F.FreeCompletion (m.handle ctx names param handler v) := by
  unfold Machine.handle
  split
  · exact holds_runBlock hm hctx handler
  · refine (holds_inner hctx).bind fun ctx hctx => (holds_announce hctx.scope _).bind fun _ _ => ?_
    exact (hm.bind _ _ hctx hv).bind fun _ _ => holds_runBlock hm hctx handler

theorem holds_tryStatement (body : List Stmt) (handled : Bool) (names : List Key)
    (param : Option Pattern) (handler finalizer : List Stmt) :
    F.Holds n F.FreeCompletion
      (m.tryStatement ctx body handled names param handler finalizer) := by
  refine (holds_runBlock hm hctx body).outcome.bind fun r hr => ?_
  extract_lets rest
  have hrest {r : Except Abrupt Completion} (hr : F.FreeResult F.FreeCompletion r) :
      F.Holds n F.FreeCompletion (rest r) := by
    refine .ite (.ofResult hr) (.bind (.read fun h hs => hs.completion) fun kept hkept => ?_)
    refine (holds_runBlock hm hctx finalizer).bind fun c hc => ?_
    split
    · exact .bind (.change fun _ hs => hs.withCompletion hkept) fun _ _ => .ofResult hr
    · exact .pure hc
  refine .ite ?_ (.pure_bind (hrest hr))
  split
  · exact (holds_handle hm hctx names param handler hr).outcome.bind fun _ hr => hrest hr
  · exact (holds_makeError _ _ _).bind fun v hv =>
      (holds_handle hm hctx names param handler hv).outcome.bind fun _ hr => hrest hr
  · exact .pure_bind (hrest hr)

theorem holds_casesFrom (v : Value) (cases : List Case) :
    F.Holds n (fun _ => True) (m.casesFrom ctx v cases) := by
  induction cases with
  | nil => exact .pure trivial
  | cons case rest ih =>
    obtain ⟨test, body⟩ := case
    cases test with
    | none => exact ih
    | some e => exact (hm.expr e hctx).bind fun _ _ => .ite (.pure trivial) ih

theorem holds_switchStatement (e : Expr) (cases : List Case) :
    F.Holds n F.FreeCompletion (m.switchStatement ctx e cases) := by
  refine (hm.expr e hctx).bind fun v _ => (holds_inner hctx).bind fun ctx hctx => ?_
  refine (holds_prepare hctx _).bind fun _ _ => (holds_casesFrom hm hctx v cases).bind fun _ _ => ?_
  refine (holds_sequence hm hctx _).bind fun c hc => ?_
  split
  · exact .pure trivial
  · exact .pure hc

/-- A statement ends with nothing from behind the fence. -/
theorem holds_execute (s : Stmt) : F.Holds n F.FreeCompletion (m.execute ctx s) := by
  unfold Machine.execute
  extract_lets labels ctx'
  have hctx' : F.FreeContext ctx' := ⟨hctx.scope, hctx.realm, hctx.vars⟩
  have expr {n : Nat} (e : Expr) : F.Holds n F.FreeValue (m.expr ctx' e) := hm.expr e hctx'
  have keep {n : Nat} : F.Holds n (fun _ => True) (Machine.keep ctx' .undefined) :=
    holds_keep trivial
  cases s with
  | empty | «break» | «continue» => exact .pure trivial
  | function f => exact (holds_raiseFunction hm hctx' f).bind fun _ _ => .pure trivial
  | expr e => exact (expr e).bind fun _ hv => (holds_keep hv).bind fun _ _ => .pure trivial
  | declare binder _ items =>
    exact (holds_declare hm hctx' binder items).bind fun _ _ => .pure trivial
  | «class» c =>
    exact (holds_classValue hm hctx' c).bind fun _ hv =>
      (holds_setSlot hctx'.scope _ hv).bind fun _ _ => .pure trivial
  | block body => exact holds_runBlock hm hctx' body
  | cond test yes no =>
    exact keep.bind fun _ _ => (expr test).bind fun _ _ =>
      .ite (hm.stmt yes hctx') (hm.stmt no hctx')
  | «while» test body => exact keep.bind fun _ _ => holds_whileLoop hm hctx' labels test body
  | doWhile body test => exact keep.bind fun _ _ => holds_doLoop hm hctx' labels body test
  | «for» init test step body =>
    exact keep.bind fun _ _ => holds_forLoop hm hctx' labels init test step body
  | forEach keys binder names target e body =>
    refine keep.bind fun _ _ => (expr e).bind fun v hv => .ite ?_ ?_
    · exact holds_keyLoop (fun hv => holds_eachRound hm hctx' labels binder names target body hv) hv
    · exact holds_valueLoop hm
        (fun hv => holds_eachRound hm hctx' labels binder names target body hv) hv
  | «return» e =>
    cases e with
    | none => exact .pure trivial
    | some e => exact (expr e).map fun _ hv => hv
  | throw e => exact (expr e).bind fun _ hv => .throw hv
  | «try» body handled names param handler finalizer =>
    exact keep.bind fun _ _ =>
      holds_tryStatement hm hctx' body handled names param handler finalizer
  | «switch» e cases => exact keep.bind fun _ _ => holds_switchStatement hm hctx' e cases
  | labeled label body =>
    have hlabeled : F.FreeContext { ctx' with labels := label :: labels } :=
      ⟨hctx.scope, hctx.realm, hctx.vars⟩
    refine (hm.stmt body hlabeled).bind fun c hc => ?_
    split
    · exact .ite (.pure trivial) (.pure trivial)
    · exact .pure hc

end LoadHook.Script.Fence
