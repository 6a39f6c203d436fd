import LoadHook.Script.Grammar.Basic

/-!
# The grammar of scripts: expressions

Expressions from the innermost outwards: primary expressions, calls and members,
operators on one value, operators on two by rank, conditions, arrow functions and
assignments.
-/
namespace LoadHook.Script

/-- The anonymous function or class that an expression is, under a name. -/
def Expr.withName (e : Expr) (n : Key) : Expr :=
  match e with
  | .function false f => if f.name.isEmpty then .function false (f.withName n) else e
  | .class (.mk [] parent ctor members) => .class (.mk n parent (ctor.withName n) members)
  | e => e

/-- The default of a target under the name it is for. -/
def Target.ofDefault (p : Pattern) (d : Option Expr) : Target :=
  match p, d with
  | .name n, some e => .bind p (some (e.withName n))
  | p, d => .bind p d

mutual

/-- The pattern that an expression is when it is assigned to. -/
def Expr.toPattern (fuel : Nat) (strict : Bool) (e : Expr) : Option Pattern :=
  match fuel with
  | 0 => none
  | n + 1 =>
    match e with
    | .name x => if strict && isGuarded x then none else some (.name x)
    | .member _ _ | .index _ _ | .superMember _ => some (.place e)
    | .group e =>
      match e with
      | .name _ | .member _ _ | .index _ _ | .group _ => e.toPattern n strict
      | _ => none
    | .array items => itemTargets n strict items []
    | .object members => memberFields n strict members []
    | _ => none

/-- The target that an expression is when it is assigned to. -/
def Expr.toTarget (fuel : Nat) (strict : Bool) (e : Expr) : Option Target :=
  match fuel with
  | 0 => none
  | n + 1 =>
    match e with
    | .assign p d => some (.ofDefault p (some d))
    | e => (e.toPattern n strict).map fun p => .bind p none

/-- The array pattern that items are, `read` being the targets before them backwards. -/
def itemTargets (fuel : Nat) (strict : Bool) (items : List Item) (read : List Target) :
    Option Pattern :=
  match fuel with
  | 0 => none
  | n + 1 =>
    match items with
    | [] => some (.array read.reverse none)
    | .hole :: more => itemTargets n strict more (.hole :: read)
    | .one e :: more => do itemTargets n strict more ((← e.toTarget n strict) :: read)
    | [.spread e] => do return .array read.reverse (some (← e.toPattern n strict))
    | .spread _ :: _ => none

/-- The object pattern that members are, `read` being the fields before them backwards. -/
def memberFields (fuel : Nat) (strict : Bool) (members : List Member) (read : List Field) :
    Option Pattern :=
  match fuel with
  | 0 => none
  | n + 1 =>
    match members with
    | [] => some (.object read.reverse none)
    | .field _ name e :: more => do
      memberFields n strict more (.mk name (← e.toTarget n strict) :: read)
    | .proto e :: more => do
      memberFields n strict more (.mk (.str (key "__proto__")) (← e.toTarget n strict) :: read)
    | [.spread e] => do return .object read.reverse (some (← e.toPattern n strict))
    | _ => none

end

namespace Grammar

open Parse

variable (g : Grammar)

/-! ## Primary expressions -/

/-- Reads items up to a closing mark. -/
def items (close : String) : Parse (List Item) := do
  let is ← many (← measure) do
    if ← atMark close then return none
    else if ← accept "," then return some Item.hole
    else
      let item ← if ← accept "..." then pure (Item.spread (← g.assignment false))
        else pure (Item.one (← g.assignment false))
      if !(← atMark close) then expect ","
      return some item
  expect close
  return is

/-- Reads arguments, the opening parenthesis passed. -/
def arguments : Parse (List Item) :=
  commaList ")" do
    if ← accept "..." then return .spread (← g.assignment false)
    else return .one (← g.assignment false)

/-- Whether a word in front of a member makes it a getter or setter. -/
def accessorKind : Parse MemberKind := do
  if ← modifier "get" then return .getter
  else if ← modifier "set" then return .setter
  else return .value

/-- Reads a member of an object. -/
def objectMember : Parse Member := do
  if ← accept "..." then return .spread (← g.assignment false)
  let start ← here
  let kind ← accessorKind
  let isWord := match ← token with
    | .name _ _ => true
    | _ => false
  let (e, n) ← g.memberName
  if kind != .value || (← atMark "(") then
    return .method false e kind (← g.functionRest start .method (n.getD []))
  else if ← accept ":" then
    let value ← g.assignment false
    match n with
    | some n =>
      if n == key "__proto__" then return .proto value
      else return .field false e (value.withName n)
    | none => return .field false e value
  else match n with
    | some n =>
      if isWord && isNameWord (← get).strict n then
        if ← accept "=" then
          return .field false e (.assign (.name n) ((← g.assignment false).withName n))
        else return .field false e (.name n)
      else fail "expecting ':'"
    | none => fail "expecting ':'"

/-- Reads the rest of a template: texts and inserted expressions in turn. -/
def templateRest (fuel : Nat) (texts : List Text.Utf16) (parts : List Item) : Parse Expr :=
  match fuel with
  | 0 => fail "stack overflow"
  | n + 1 => do
    let r ← get
    match Token.template (r.rest.length + 1) [] r.rest with
    | .error message => fail message
    | .ok (text, last, rest) =>
      set { r with rest := rest }
      advance
      if last then return .template (texts ++ [text]) parts
      else
        let e ← g.expression false
        if !(← atMark "\x7d") then fail "expected '\x7d' after template expression"
        templateRest n (texts ++ [text]) (parts ++ [.one e])

/-- Reads a function expression. -/
def functionExpression : Parse Expr := do
  let start ← here
  advance
  match ← token with
  | .name n _ =>
    if isNameWord (← get).strict n then
      advance
      return .function true (← g.functionRest start .plain n)
    else fail "unexpected token in expression"
  | _ => return .function false (← g.functionRest start .plain [])

/-- Reads a class expression. -/
def classExpression : Parse Expr := do
  let start ← here
  advance
  if (← atMark "\x7b") || (← atWord "extends") then return .class (← g.classRest start [])
  else return .class (← g.classRest start (← name))

/-- Reads what follows `super`. -/
def superRest : Parse Expr := do
  if ← accept "(" then return .superCall (← g.arguments)
  else if ← accept "." then return .superMember (.str (← anyWord))
  else if ← accept "[" then
    let e ← g.expression false
    expect "]"
    return .superMember e
  else fail "invalid use of 'super'"

/-- Reads what stands in parentheses, or an arrow function with parameters in parentheses. -/
def parenthesized : Parse Expr := do
  let start ← here
  match ← attempt g.arrowHead with
  | some (names, params, rest) =>
    return .function false (← g.arrowRest start names params rest false)
  | none =>
    expect "("
    let e ← g.expression false
    expect ")"
    return .group e

/-- Reads a primary expression. -/
def primary : Parse Expr := do
  let r ← get
  match r.token with
  | .num x legacy =>
    if legacy && r.strict then fail "octal literals are deprecated in strict mode"
    advance
    return .num x
  | .str s legacy =>
    if legacy && r.strict then fail "octal escape sequences are not allowed in strict mode"
    advance
    return .str s
  | .ending => fail "unexpected token in expression: ''"
  | .mark m =>
    match m with
    | "(" => g.parenthesized
    | "[" =>
      advance
      return .array (← g.items "]")
    | "\x7b" =>
      advance
      return .object (← commaList "\x7d" g.objectMember)
    | "\x60" => g.templateRest (r.rest.length + 1) [] []
    | m => fail ("unexpected token in expression: '" ++ m ++ "'")
  | .name n escaped =>
    let word (w : String) : Bool := !escaped && n == key w
    if word "function" then g.functionExpression
    else if word "class" then g.classExpression
    else if word "this" then
      advance
      return .this
    else if word "null" then
      advance
      return .null
    else if word "true" then
      advance
      return .bool true
    else if word "false" then
      advance
      return .bool false
    else if word "super" then
      advance
      g.superRest
    else
      let start ← here
      let n ← name
      let r ← get
      if r.token.isMark "=>" && !r.ended then
        advance
        return .function false (← g.arrowRest start [n] [.bind (.name n) none] none false)
      else return .name n

/-! ## Members and calls -/

/-- Reads a member after its value, if there is one. -/
def memberStep (e : Expr) : Parse (Option Expr) := do
  if ← accept "." then return some (.member e (← anyWord))
  else if ← accept "[" then
    let i ← g.expression false
    expect "]"
    return some (.index e i)
  else return none

/-- Reads `new` and what is constructed, at most `fuel` levels deep, or a primary expression. -/
def memberExpression (fuel : Nat) : Parse Expr :=
  match fuel with
  | 0 => fail "stack overflow"
  | n + 1 => do
    if ← acceptWord "new" then
      if ← accept "." then
        expectWord "target"
        if !(← get).surrounding.inFunction then fail "new.target only allowed within functions"
        grow (← measure) g.memberStep .newTarget
      else
        let f ← memberExpression n
        let f ← grow (← measure) g.memberStep f
        let args ← if ← accept "(" then g.arguments else pure []
        return .construct f args
    else g.primary

/-- Reads what follows `?.`. -/
def optionalStep (e : Expr) : Parse Expr := do
  if ← accept "(" then return .call (.optional e) (← g.arguments)
  else if ← accept "[" then
    let i ← g.expression false
    expect "]"
    return .index (.optional e) i
  else return .member (.optional e) (← anyWord)

/-- Reads a member or call after its value, if there is one; tells whether a part of the chain
may be missing. -/
def chainStep (e : Expr × Bool) : Parse (Option (Expr × Bool)) := do
  if ← accept "(" then return some (.call e.1 (← g.arguments), e.2)
  else if ← accept "?." then return some (← g.optionalStep e.1, true)
  else match ← g.memberStep e.1 with
    | some f => return some (f, e.2)
    | none => return none

/-- Reads members and calls. -/
def chainExpression : Parse Expr := do
  let e ← g.memberExpression (← measure)
  let (e, chained) ← grow (← measure) g.chainStep (e, false)
  return if chained then .chain e else e

/-! ## Operators -/

/-- Whether an expression can be assigned to by an operator. -/
def isPlace (strict : Bool) : Expr → Bool
  | .name n => !(strict && isGuarded n)
  | .member _ _ | .index _ _ | .superMember _ => true
  | .group (.name n) => !(strict && isGuarded n)
  | .group (.member _ _) | .group (.index _ _) => true
  | _ => false

/-- Reads an expression with `++` or `--` after it. -/
def updateExpression : Parse Expr := do
  let e ← g.chainExpression
  let r ← get
  if !r.ended && (r.token.isMark "++" || r.token.isMark "--") then
    if !isPlace r.strict e then fail "invalid increment/decrement operand"
    advance
    return .update (r.token.isMark "++") false e
  else return e

/-- The operator on one value that a token is. -/
def unaryOp? (t : Token) : Option UnaryOp :=
  if t.isMark "-" then some .minus
  else if t.isMark "+" then some .plus
  else if t.isMark "!" then some .not
  else if t.isMark "~" then some .bitNot
  else if t.isWord "typeof" then some .typeOf
  else if t.isWord "void" then some .void
  else none

/-- Reads operators on one value, at most `fuel` of them, and their value. -/
def unary (fuel : Nat) : Parse Expr :=
  match fuel with
  | 0 => fail "stack overflow"
  | n + 1 => do
    let r ← get
    match unaryOp? r.token with
    | some op =>
      advance
      let e ← unary n
      if ← atMark "**" then
        fail "unparenthesized unary expression can't appear on the left-hand side of '**'"
      return .unary op e
    | none =>
      if r.token.isWord "delete" then
        advance
        let e ← unary n
        match e with
        | .name _ => if r.strict then fail "cannot delete a direct reference in strict mode"
        | _ => pure ()
        return .delete e
      else if r.token.isMark "++" || r.token.isMark "--" then
        advance
        let e ← unary n
        if !isPlace r.strict e then fail "invalid increment/decrement operand"
        return .update (r.token.isMark "++") true e
      else
        let e ← g.updateExpression
        if ← accept "**" then return .binary .pow e (← unary n) else return e

/-- An operator between two values. -/
inductive Junction where
  | binary (op : BinaryOp)
  | logical (op : LogicalOp)

/-- The operator between two values that a token is, with its rank. -/
def junction? (noIn : Bool) : Token → Option (Junction × Nat)
  | .mark m =>
    match m with
    | "*" => some (.binary .mul, 11)
    | "/" => some (.binary .div, 11)
    | "%" => some (.binary .rem, 11)
    | "+" => some (.binary .add, 10)
    | "-" => some (.binary .sub, 10)
    | "<<" => some (.binary .shiftLeft, 9)
    | ">>" => some (.binary .shiftRight, 9)
    | ">>>" => some (.binary .shiftRightZero, 9)
    | "<" => some (.binary .less, 8)
    | ">" => some (.binary .greater, 8)
    | "<=" => some (.binary .lessEq, 8)
    | ">=" => some (.binary .greaterEq, 8)
    | "==" => some (.binary .equal, 7)
    | "!=" => some (.binary .notEqual, 7)
    | "===" => some (.binary .same, 7)
    | "!==" => some (.binary .notSame, 7)
    | "&" => some (.binary .bitAnd, 6)
    | "^" => some (.binary .bitXor, 5)
    | "|" => some (.binary .bitOr, 4)
    | "&&" => some (.logical .and, 3)
    | "||" => some (.logical .or, 2)
    | "??" => some (.logical .coalesce, 2)
    | _ => none
  | t =>
    if t.isWord "instanceof" then some (.binary .instanceOf, 8)
    else if t.isWord "in" && !noIn then some (.binary .isIn, 8)
    else none

/-- Two values joined by an operator. -/
def Junction.join (op : Junction) (a b : Expr) : Expr :=
  match op with
  | .binary op => .binary op a b
  | .logical op => .logical op a b

/-- Whether operators between two values may stand side by side: `??` needs parentheses beside
`&&` and `||`. -/
def Junction.mixes (op : Junction) : Expr → Bool
  | .logical other _ _ => match op with
    | .logical op => (op == .coalesce) == (other == .coalesce)
    | .binary _ => true
  | _ => true

/-- Reads values joined by operators of at least a rank. -/
def ranked (noIn : Bool) : Nat → Parse Expr
  | 0 => do g.unary (← measure)
  | n + 1 => do
    let rank := 11 - n
    let a ← ranked noIn n
    grow (← measure) (fun a => do
      match junction? noIn (← token) with
      | some (op, r) =>
        if r = rank then
          advance
          let b ← ranked noIn n
          if !op.mixes a || !op.mixes b then fail "cannot mix ?? with && or ||"
          return some (op.join a b)
        else return none
      | none => return none) a

/-- Reads a condition. -/
def conditional (noIn : Bool) : Parse Expr := do
  let test ← g.ranked noIn 10
  if ← accept "?" then
    let yes ← g.assignment false
    expect ":"
    return .cond test yes (← g.assignment noIn)
  else return test

/-- The operator of an assignment that computes. -/
def assignOp? (m : String) : Option Junction :=
  match m with
  | "+=" => some (.binary .add)
  | "-=" => some (.binary .sub)
  | "*=" => some (.binary .mul)
  | "/=" => some (.binary .div)
  | "%=" => some (.binary .rem)
  | "**=" => some (.binary .pow)
  | "<<=" => some (.binary .shiftLeft)
  | ">>=" => some (.binary .shiftRight)
  | ">>>=" => some (.binary .shiftRightZero)
  | "&=" => some (.binary .bitAnd)
  | "|=" => some (.binary .bitOr)
  | "^=" => some (.binary .bitXor)
  | "&&=" => some (.logical .and)
  | "||=" => some (.logical .or)
  | "??=" => some (.logical .coalesce)
  | _ => none

/-- Reads an assignment. -/
def assignmentWith (noIn : Bool) : Parse Expr := do
  let before := (← get).rest.length
  let e ← g.conditional noIn
  let r ← get
  match r.token with
  | .mark "=" =>
    match e.toPattern (2 * before + 10) r.strict with
    | none => fail "invalid assignment left-hand side"
    | some p =>
      advance
      let value ← g.assignment noIn
      match p with
      | .name n => return .assign p (match e with
          | .name _ => value.withName n
          | _ => value)
      | _ => return .assign p value
  | .mark m =>
    match assignOp? m with
    | none => return e
    | some op =>
      if !isPlace r.strict e then fail "invalid assignment left-hand side"
      advance
      let value ← g.assignment noIn
      match op with
      | .binary op => return .assignWith op e value
      | .logical op => return .assignLogical op e value
  | _ => return e

/-- Reads assignments with commas between two. -/
def expressionWith (noIn : Bool) : Parse Expr := do
  let e ← g.assignment noIn
  grow (← measure) (fun a => do
    if ← accept "," then return some (.sequence a (← g.assignment noIn)) else return none) e

end Grammar
end LoadHook.Script
