import LoadHook.Script.Expression

/-!
# Running statements

What every kind of statement does and how it ends. In a script, as opposed to a function,
the value of the last expression statement is kept; a statement with parts that may not
run starts without a value.
-/
namespace LoadHook.Script

namespace Machine

variable (m : Machine) (ctx : Context)

/-- Keeps the value of a statement. -/
def keep (v : Value) : Eval Unit :=
  if ctx.script then Eval.change fun h => { h with completion := v } else pure ()

/-- Runs statements in a scope of their own if they declare something. -/
def runBlock (body : List Stmt) : Eval Completion := do
  if (lexicalNames body).isEmpty && (functionsOf body).isEmpty then m.sequence ctx body
  else
    let ctx ← inner ctx
    prepare ctx body
    m.sequence ctx body

/-! ## Declarations -/

/-- Runs a declaration. Without a value a variable keeps the one it has. -/
def declare (binder : Binder) : List Target → Eval Unit
  | [] => pure ()
  | .hole :: rest => declare binder rest
  | .bind p e :: rest => do
    match binder, e with
    | .var, none => pure ()
    | .var, some e => m.bind ctx .assign p (← m.expr ctx e)
    | _, none => m.bind ctx .declare p .undefined
    | _, some e => m.bind ctx .declare p (← m.expr ctx e)
    declare binder rest

/-- Gives the variable of the function that a function in a block is too its value. -/
def raiseFunction (f : Func) : Eval Unit := do
  if ctx.raised.contains f.name then
    m.assignName { ctx with scope := ctx.vars } f.name (← m.name ctx f.name)

/-! ## Loops -/

/-- How a loop ends after a round that ends so; none if it goes on. -/
def loopEnd (labels : List Key) : Completion → Option Completion
  | .normal | .continue none => none
  | .continue (some l) => if labels.contains l then none else some (.continue (some l))
  | .break none => some .normal
  | c => some c

/-- Runs the body of a loop once. -/
def round (labels : List Key) (body : Stmt) : Eval (Option Completion) := do
  return loopEnd labels (← m.stmt ctx body)

/-- Runs a loop whose test comes first. -/
def whileLoop (labels : List Key) (test : Expr) (body : Stmt) : Eval Completion :=
  Eval.loop Eval.roundLimit (fun () => do
    if (← m.expr ctx test).truthy then
      match ← m.round ctx labels body with
      | none => return .inl ()
      | some c => return .inr c
    else return .inr .normal) ()

/-- Runs a loop whose test comes last. -/
def doLoop (labels : List Key) (body : Stmt) (test : Expr) : Eval Completion :=
  Eval.loop Eval.roundLimit (fun () => do
    match ← m.round ctx labels body with
    | none => if (← m.expr ctx test).truthy then return .inl () else return .inr .normal
    | some c => return .inr c) ()

/-- The context of a copy of the scope. -/
def copyScope : Eval Context := do
  return { ctx with scope := ← Eval.update fun h => h.addScope (h.scope ctx.scope) }

/-- Runs the rounds of a counting loop; with variables of its own, each round has a copy of
them. -/
def forRounds (labels : List Key) (copies : Bool) (test step : Option Expr) (body : Stmt) :
    Eval Completion :=
  Eval.loop Eval.roundLimit (fun ctx => do
    let goesOn ← match test with
      | some e => pure (← m.expr ctx e).truthy
      | none => pure true
    if goesOn then
      match ← m.round ctx labels body with
      | some c => return .inr c
      | none =>
        let ctx ← if copies then copyScope ctx else pure ctx
        match step with
        | some e =>
          let _ ← m.expr ctx e
          return .inl ctx
        | none => return .inl ctx
    else return .inr .normal) ctx

/-- Runs a counting loop. -/
def forLoop (labels : List Key) (init : Stmt) (test step : Option Expr) (body : Stmt) :
    Eval Completion := do
  let names := lexicalNames [init]
  if names.isEmpty then
    match init with
    | .expr e =>
      let _ ← m.expr ctx e
    | init =>
      let _ ← m.stmt ctx init
    m.forRounds ctx labels false test step body
  else
    let ctx ← inner ctx
    Eval.change (·.announce ctx.scope names)
    let _ ← m.stmt ctx init
    let ctx ← copyScope ctx
    m.forRounds ctx labels true test step body

/-- The enumerable keys of an object and of those above it, at most `fuel` up. -/
def enumerableKeys (h : Heap) (fuel : Nat) (r : Ref) (read : List Key) : List Key :=
  match fuel with
  | 0 => []
  | n + 1 =>
    let o := h.object r
    let own := o.ownKeys.filter fun k => !read.contains k
    let shown := own.filter fun k => ((o.own k).map Property.enumerable).getD false
    match o.proto with
    | some up => shown ++ enumerableKeys h n up (own ++ read)
    | none => shown

/-- Runs one round of a loop over keys or values. -/
def eachRound (labels : List Key) (binder : Option Binder) (names : List Key) (target : Pattern)
    (body : Stmt) (v : Value) : Eval (Option Completion) := do
  match binder with
  | some .let | some .const =>
    let ctx ← inner ctx
    Eval.change (·.announce ctx.scope (names.map (·, binder == some .const)))
    m.bind ctx .declare target v
    m.round ctx labels body
  | _ =>
    m.bind ctx .assign target v
    m.round ctx labels body

/-- Runs a loop over the keys of an object. -/
def keyLoop (round : Value → Eval (Option Completion)) (v : Value) : Eval Completion := do
  if !v.isPresent then return .normal
  let r ← toObject ctx.realm v
  let keys ← Eval.read fun h => enumerableKeys h (h.objects.size + 1) r []
  Eval.loop Eval.roundLimit (fun
    | [] => return .inr .normal
    | k :: rest => do
      if (← Eval.read (·.find r k)).isNone then return .inl rest
      match ← round (.str k) with
      | some c => return .inr c
      | none => return .inl rest) keys

/-- Runs a loop over the elements of a list. -/
def valueLoop (round : Value → Eval (Option Completion)) (v : Value) : Eval Completion :=
  Eval.loop Eval.roundLimit (fun i => do
    match ← m.element? ctx.realm v i with
    | none => return .inr .normal
    | some x =>
      match ← round x with
      | some c => return .inr c
      | none => return .inl (i + 1)) 0

/-! ## Other statements -/

/-- The name of the error for nesting that is too deep. -/
def overflowError (realm : RealmRef) : Eval Value :=
  makeError realm .range "Maximum call stack size exceeded"

/-- Runs the handler of a statement for what it throws. -/
def handle (names : List Key) (param : Option Pattern) (handler : List Stmt) (v : Value) :
    Eval Completion := do
  match param with
  | none => m.runBlock ctx handler
  | some p =>
    let ctx ← inner ctx
    Eval.change (·.announce ctx.scope (names.map (·, false)))
    m.bind ctx .declare p v
    m.runBlock ctx handler

/-- Runs a statement with a handler or a finalizer. An end of the finalizer that is not normal
takes the place of the other. -/
def tryStatement (body : List Stmt) (handled : Bool) (names : List Key) (param : Option Pattern)
    (handler finalizer : List Stmt) : Eval Completion := do
  let r ← Eval.outcome (m.runBlock ctx body)
  let r ← if handled then
      match r with
      | .error (.thrown v) => Eval.outcome (m.handle ctx names param handler v)
      | .error .overflow => do
        let v ← overflowError ctx.realm
        Eval.outcome (m.handle ctx names param handler v)
      | r => pure r
    else pure r
  if finalizer.isEmpty then Eval.ofResult r
  else
    let kept ← Eval.read Heap.completion
    match ← m.runBlock ctx finalizer with
    | .normal =>
      Eval.change fun h => { h with completion := kept }
      Eval.ofResult r
    | c => return c

/-- The cases of a switch from the first whose test is the same as a value. -/
def casesFrom (v : Value) : List Case → Eval (Option (List Case))
  | [] => pure none
  | .mk none _ :: rest => casesFrom v rest
  | .mk (some e) body :: rest => do
    if Value.same v (← m.expr ctx e) then return some (.mk (some e) body :: rest)
    else casesFrom v rest

/-- The cases of a switch from the default one. -/
def defaultCases (cases : List Case) : List Case :=
  cases.dropWhile fun
    | .mk test _ => test.isSome

/-- The statements of cases. -/
def caseBody (cases : List Case) : List Stmt :=
  cases.flatMap fun
    | .mk _ body => body

/-- Runs a switch. -/
def switchStatement (e : Expr) (cases : List Case) : Eval Completion := do
  let v ← m.expr ctx e
  let ctx ← inner ctx
  prepare ctx (caseBody cases)
  let chosen ← m.casesFrom ctx v cases
  match ← m.sequence ctx (caseBody (chosen.getD (defaultCases cases))) with
  | .break none => return .normal
  | c => return c

/-- Runs a statement. -/
def execute (s : Stmt) : Eval Completion := do
  let labels := ctx.labels
  let ctx := { ctx with labels := [] }
  match s with
  | .empty => return .normal
  | .function f =>
    m.raiseFunction ctx f
    return .normal
  | .expr e =>
    keep ctx (← m.expr ctx e)
    return .normal
  | .declare binder _ items =>
    m.declare ctx binder items
    return .normal
  | .class c =>
    let v ← m.classValue ctx c
    Eval.change (·.setSlot ctx.scope c.name v)
    return .normal
  | .block body => m.runBlock ctx body
  | .cond test yes no =>
    keep ctx .undefined
    if (← m.expr ctx test).truthy then m.stmt ctx yes else m.stmt ctx no
  | .while test body =>
    keep ctx .undefined
    m.whileLoop ctx labels test body
  | .doWhile body test =>
    keep ctx .undefined
    m.doLoop ctx labels body test
  | .for init test step body =>
    keep ctx .undefined
    m.forLoop ctx labels init test step body
  | .forEach keys binder names target e body =>
    keep ctx .undefined
    let v ← m.expr ctx e
    let round := m.eachRound ctx labels binder names target body
    if keys then keyLoop ctx round v else m.valueLoop ctx round v
  | .return none => return .return .undefined
  | .return (some e) => return .return (← m.expr ctx e)
  | .break label => return .break label
  | .continue label => return .continue label
  | .throw e => Eval.throw (← m.expr ctx e)
  | .try body handled names param handler finalizer =>
    keep ctx .undefined
    m.tryStatement ctx body handled names param handler finalizer
  | .switch e cases =>
    keep ctx .undefined
    m.switchStatement ctx e cases
  | .labeled label body =>
    match ← m.stmt { ctx with labels := label :: labels } body with
    | .break (some l) => if l == label then return .normal else return .break (some l)
    | c => return c

end Machine
end LoadHook.Script
