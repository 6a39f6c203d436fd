import LoadHook.Script.Function

/-!
# Evaluating expressions

The value of every kind of expression, its parts being evaluated by the machine, from
left to right.
-/
namespace LoadHook.Script

namespace Machine

variable (m : Machine) (ctx : Context)

/-- The values of items in order, those of a spread list in its place. -/
def items : List Item → Eval (List (Option Value))
  | [] => pure []
  | .hole :: rest => do return none :: (← items rest)
  | .one e :: rest => do
    let v ← m.expr ctx e
    return some v :: (← items rest)
  | .spread e :: rest => do
    let vs ← m.elements ctx.realm (← m.expr ctx e)
    return vs.map some ++ (← items rest)

/-- The arguments of a call. -/
def arguments (args : List Item) : Eval (List Value) := do
  return (← m.items ctx args).map fun v => v.getD .undefined

/-- The texts of a template with the texts of values between them. -/
def template : List Text.Utf16 → List Item → Eval Text.Utf16
  | t :: ts, .one e :: rest => do
    let s ← m.toText ctx.realm (← m.expr ctx e)
    return t ++ s ++ (← template ts rest)
  | ts, _ => pure ts.flatten

/-! ## Objects -/

/-- Adds a member to a new object. -/
def addMember (r : Ref) (member : Member) : Eval Unit := do
  match member with
  | .field _ name e =>
    let k ← m.toKey ctx.realm (← m.expr ctx name)
    let v ← m.expr ctx e
    let _ ← Eval.update (·.define r k (.ofProperty (.plain v)))
  | .method _ name kind f =>
    let k ← m.toKey ctx.realm (← m.expr ctx name)
    defineMethod ctx r true k kind f
  | .proto e =>
    match ← m.expr ctx e with
    | .obj p => Eval.change (·.modifyObject r fun o => { o with proto := some p })
    | .null => Eval.change (·.modifyObject r fun o => { o with proto := none })
    | _ => return ()
  | .spread e =>
    let props ← m.ownEnumerable ctx.realm (← m.expr ctx e) []
    Eval.change fun h => props.foldl (fun h p => (h.define r p.1 (.ofProperty (.plain p.2))).2) h

/-- A new object with members. -/
def objectValue (members : List Member) : Eval Value := do
  let r ← Eval.update fun h => h.addPlain (some (h.realm ctx.realm).objectProto)
  Eval.each (m.addMember ctx r) members
  return .obj r

/-! ## Calls -/

/-- What `this` is in a call of an expression, and the function. -/
def calleeOf (e : Expr) : Eval (Value × Value) := do
  match e.inGroup with
  | .member b k =>
    let base ← m.expr ctx b
    return (base, ← m.get ctx.realm base k)
  | .index b i =>
    let base ← m.expr ctx b
    let k ← m.toKey ctx.realm (← m.expr ctx i)
    return (base, ← m.get ctx.realm base k)
  | .superMember k =>
    let place ← m.reference ctx (.superMember k)
    return (← receiver ctx, ← m.load ctx place)
  | e => return (.undefined, ← m.expr ctx e)

/-- What `this` is in a call that may be left out, and the function. -/
def callee (e : Expr) : Eval (Value × Value) := do
  match e with
  | .optional e =>
    let (this, f) ← m.calleeOf ctx e
    if f.isPresent then return (this, f) else Eval.stop .absent
  | e => m.calleeOf ctx e

/-- The value of a construction. -/
def constructValue (f : Expr) (args : List Item) : Eval Value := do
  let f ← m.expr ctx f
  let args ← m.arguments ctx args
  match f with
  | .obj r =>
    if ← Eval.read (·.isConstructor f) then m.construct ctx.realm r args r
    else typeError ctx.realm "not a constructor"
  | _ => typeError ctx.realm "not a constructor"

/-! ## Operators -/

/-- Deletes what an expression names; tells whether it is gone. -/
def deletePlace (e : Expr) : Eval Bool := do
  match e.inGroup with
  | .name k => deleteName ctx k
  | .member _ _ | .index _ _ =>
    match ← m.reference ctx e with
    | .property base k =>
      let r ← toObject ctx.realm base
      let gone ← Eval.update (·.delete r k)
      if !gone && ctx.strict then
        typeError ctx.realm "could not delete property"
      return gone
    | _ => return true
  | e =>
    let _ ← m.expr ctx e
    return true

/-- Adds one to a place, or takes one away. -/
def updatePlace (increment before : Bool) (e : Expr) : Eval Value := do
  let place ← m.reference ctx e
  let old ← m.toNumber ctx.realm (← m.load ctx place)
  let new := if increment then old + 1 else old - 1
  m.store ctx place (.num new)
  return .num (if before then new else old)

/-- Whether an operator that may leave out its second operand does so for a value. -/
def isDecided (op : LogicalOp) (v : Value) : Bool :=
  match op with
  | .and => !v.truthy
  | .or => v.truthy
  | .coalesce => v.isPresent

/-- The value of an assignment. -/
def assignPattern (target : Pattern) (e : Expr) : Eval Value := do
  match target with
  | .place p =>
    let place ← m.reference ctx p
    let v ← m.expr ctx e
    m.store ctx place v
    return v
  | target =>
    let v ← m.expr ctx e
    m.bind ctx .assign target v
    return v

/-- The value of an expression. -/
def evaluate (e : Expr) : Eval Value := do
  match e with
  | .null => return .null
  | .bool b => return .bool b
  | .num x => return .num x
  | .str s => return .str s
  | .template texts parts => return .str (← m.template ctx texts parts)
  | .this => receiver ctx
  | .newTarget => Eval.read fun h => (h.scope (h.receiverScope ctx.scope)).newTarget
  | .name n => m.name ctx n
  | .array list =>
    let vs ← m.items ctx list
    return .obj (← Eval.update fun h => h.addArray (h.realm ctx.realm).arrayProto vs)
  | .object members => m.objectValue ctx members
  | .function named f => return .obj (← makeFunction ctx named none f)
  | .class c => m.classValue ctx c
  | .unary .typeOf e =>
    match e.inGroup with
    | .name n => return .text (typeName (← Eval.read id) ((← m.name? ctx n).getD .undefined))
    | e => m.unary ctx.realm .typeOf (← m.expr ctx e)
  | .unary op e => m.unary ctx.realm op (← m.expr ctx e)
  | .delete e => return .bool (← m.deletePlace ctx e)
  | .update increment before place => m.updatePlace ctx increment before place
  | .binary op a b =>
    let x ← m.expr ctx a
    m.binary ctx.realm op x (← m.expr ctx b)
  | .logical op a b =>
    let x ← m.expr ctx a
    if isDecided op x then return x else m.expr ctx b
  | .assign target e => m.assignPattern ctx target e
  | .assignWith op place e =>
    let place ← m.reference ctx place
    let old ← m.load ctx place
    let new ← m.binary ctx.realm op old (← m.expr ctx e)
    m.store ctx place new
    return new
  | .assignLogical op place e =>
    let place ← m.reference ctx place
    let old ← m.load ctx place
    if isDecided op old then return old
    let new ← m.expr ctx e
    m.store ctx place new
    return new
  | .cond test yes no =>
    if (← m.expr ctx test).truthy then m.expr ctx yes else m.expr ctx no
  | .sequence a b =>
    let _ ← m.expr ctx a
    m.expr ctx b
  | .member _ _ | .index _ _ | .superMember _ => m.load ctx (← m.reference ctx e)
  | .call f args =>
    let (this, f) ← m.callee ctx f
    m.invoke ctx.realm f this (← m.arguments ctx args)
  | .construct f args => m.constructValue ctx f args
  | .superCall args => m.callParent ctx (← m.arguments ctx args)
  | .chain e =>
    match ← Eval.outcome (m.expr ctx e) with
    | .error .absent => return .undefined
    | r => Eval.ofResult r
  | .optional e =>
    let v ← m.expr ctx e
    if v.isPresent then return v else Eval.stop .absent
  | .group e => m.expr ctx e

end Machine
end LoadHook.Script
