import LoadHook.Script.Reader

/-!
# The grammar of scripts: patterns and functions

The grammar is read by functions that call each other through a `Grammar`, which holds
the readers of the parts that nest. Here are patterns, functions and classes.
-/
namespace LoadHook.Script

/-- The readers of the parts that nest. -/
structure Grammar where
  /-- Reads an expression with commas; `in` may be no operator. -/
  expression : Bool → Parse Expr
  /-- Reads an expression without commas. -/
  assignment : Bool → Parse Expr
  /-- Reads a pattern that binds names. -/
  binding : Parse Pattern
  /-- Reads a statement; it may be a declaration. -/
  statement : Bool → Parse Stmt

namespace Grammar

open Parse

variable (g : Grammar)

/-! ## Member names -/

/-- Reads the name of a member: a word, a string, a number, or an expression in brackets. The
name is none if it is computed. -/
def memberName : Parse (Expr × Option Key) := do
  match ← token with
  | .str s _ =>
    advance
    return (.str s, some s)
  | .num x _ =>
    advance
    return (.num x, none)
  | t =>
    if t.isMark "[" then
      advance
      let e ← g.assignment false
      expect "]"
      return (e, none)
    else
      let n ← anyWord
      return (.str n, some n)

/-! ## Patterns -/

/-- Reads a default. -/
def defaultValue : Parse (Option Expr) := do
  if ← accept "=" then return some (← g.assignment false) else return none

/-- Reads a pattern that binds names, with a default. -/
def target : Parse Target := do
  let p ← g.binding
  return .bind p (← g.defaultValue)

/-- Reads the items of an array pattern and its end. -/
def arrayPattern : Parse Pattern := do
  let items ← many (← measure) do
    if (← atMark "]") || (← atMark "...") then return none
    else if ← accept "," then return some Target.hole
    else
      let t ← g.target
      if !(← atMark "]") then expect ","
      return some t
  let rest ← if ← accept "..." then pure (some (← g.binding)) else pure none
  expect "]"
  return .array items rest

/-- Reads the fields of an object pattern and its end. -/
def objectPattern : Parse Pattern := do
  let fields ← many (← measure) do
    if (← atMark "\x7d") || (← atMark "...") then return none
    else
      let (e, n) ← g.memberName
      let t ← match n with
        | some n =>
          if ← accept ":" then g.target
          else if isNameWord (← get).strict n then
            modify fun r => { r with bound := n :: r.bound }
            pure (Target.bind (.name n) (← g.defaultValue))
          else fail "unexpected token in expression"
        | none =>
          expect ":"
          g.target
      if !(← atMark "\x7d") then expect ","
      return some (Field.mk e t)
  let rest ← if ← accept "..." then pure (some (← g.binding)) else pure none
  expect "\x7d"
  return .object fields rest

/-- Reads a pattern that binds names. -/
def bindingPattern : Parse Pattern := do
  if ← accept "[" then g.arrayPattern
  else if ← accept "\x7b" then g.objectPattern
  else return .name (← bindingName)

/-! ## Functions -/

/-- Reads parameters up to the closing parenthesis, which it passes. -/
def parameters : Parse (List Target × Option Pattern) := do
  let items ← many (← measure) do
    if (← atMark ")") || (← atMark "...") then return none
    else
      let t ← g.target
      if !(← atMark ")") then expect ","
      return some t
  let rest ← if ← accept "..." then pure (some (← g.binding)) else pure none
  expect ")"
  return (items, rest)

/-- Whether a statement asks for strict mode. -/
def asksStrict : Stmt → Bool
  | .expr (.str s) => s == key "use strict"
  | _ => false

/-- Whether a statement is a directive, a string alone. -/
def isDirective : Stmt → Bool
  | .expr (.str _) => true
  | _ => false

/-- Whether a directive is at hand: a string alone. -/
def atDirective : Parse Bool := do
  match ← token with
  | .str _ _ => return ((← ahead (g.statement true)).map isDirective).getD false
  | _ => return false

/-- Reads statements up to a mark, directives in front. -/
def statements (close : Parse Bool) : Parse (List Stmt) := do
  let directives ← many (← measure) do
    if ← g.atDirective then
      let s ← g.statement true
      if asksStrict s then modify fun r => { r with strict := true }
      return some s
    else return none
  let rest ← many (← measure) do
    if ← close then return none else return some (← g.statement true)
  return directives ++ rest

/-- The names declared more than once by `let`, `const` or `class`, or by them and otherwise. -/
def clashes (lexical others : List Key) : Bool :=
  !lexical.Nodup || lexical.any others.contains

/-- Checks the declarations of a function or script. -/
def checkBody (vars params : List Key) (body : List Stmt) : Parse Unit := do
  let lexical := (lexicalNames body).map Prod.fst
  if clashes lexical (vars ++ params ++ (functionsOf body).map Func.name) then
    fail "invalid redefinition of lexical identifier"

/-- The names of functions in blocks that are variables around the blocks too: those that are
not declared otherwise there. -/
def raisedNames (raised declared : List Key) (body : List Stmt) : List Key :=
  let lexical := (lexicalNames body).map Prod.fst
  raised.reverse.eraseDups.filter fun n => !lexical.contains n && !declared.contains n

/-- Reads the body of a function between braces, the opening one passed; gives the variables,
those of them that are functions in blocks, and the statements. -/
def functionBody (params : List Key) : Parse (List Key × List Key × List Stmt) := do
  let body ← g.statements (atMark "\x7d")
  let r ← get
  let vars := r.vars.reverse.eraseDups
  checkBody vars params body
  let raised := raisedNames r.raised params body
  return (vars ++ raised.filter fun n => !vars.contains n, raised, body)

/-- Reads with the state of a new function, and goes back to the old one. -/
def inNewFunction {α : Type} (p : Parse α) : Parse α := do
  let kept ← get
  set { kept with
    vars := [], raised := [], bound := [], surrounding := ⟨true, false, false, []⟩ }
  let a ← p
  modify fun r => { r with
    vars := kept.vars, raised := kept.raised, bound := kept.bound
    surrounding := kept.surrounding }
  return a

/-- Goes back to the strictness from before a function and passes its closing brace. -/
def leaveBody (strict : Bool) : Parse Unit := do
  modify fun r => { r with strict := strict }
  expect "\x7d"

/-- Reads the parameters and the body of a function, the opening parenthesis at hand. The text
of the function began where `start` was at hand. -/
def functionRest (start : List Char) (kind : FunctionKind) (name : Key) : Parse Func :=
    inNewFunction do
  let strict := (← get).strict
  expect "("
  let (params, rest) ← g.parameters
  let names := (← get).bound
  expect "\x7b"
  let (vars, raised, body) ← g.functionBody names
  let inner := (← get).strict
  if (inner || kind != .plain) && !names.Nodup then
    fail "duplicate argument names not allowed in this context"
  if inner && (names.any isGuarded || isGuarded name) then
    fail "invalid argument name in strict code"
  leaveBody strict
  return .mk name params rest vars raised body kind inner (← textSince start)

/-- Reads the body of an arrow function, the arrow passed. The text of the function began where
`start` was at hand. -/
def arrowRest (start : List Char) (names : List Key) (params : List Target)
    (rest : Option Pattern) (noIn : Bool) : Parse Func := inNewFunction do
  let strict := (← get).strict
  if !names.Nodup then fail "duplicate argument names not allowed in this context"
  if ← accept "\x7b" then
    let (vars, raised, body) ← g.functionBody names
    let inner := (← get).strict
    leaveBody strict
    return .mk [] params rest vars raised body .arrow inner (← textSince start)
  else
    let e ← g.assignment noIn
    return .mk [] params rest [] [] [.return (some e)] .arrow strict (← textSince start)

/-- Reads an arrow function with parameters in parentheses, or fails if there is none. -/
def arrowHead : Parse (List Key × List Target × Option Pattern) := do
  let kept := (← get).bound
  modify fun r => { r with bound := [] }
  expect "("
  let (params, rest) ← g.parameters
  if !(← atMark "=>") || (← get).ended then fail "expecting '=>'"
  advance
  let names := (← get).bound
  modify fun r => { r with bound := kept }
  return (names, params, rest)

/-! ## Classes -/

/-- Whether what follows a word makes it a name of its own rather than a modifier. -/
def endsName : Parse Bool := do
  let r ← get
  return r.token.isMark "(" || r.token.isMark "=" || r.token.isMark ";" || r.token.isMark "\x7d" ||
    r.token.isMark "," || r.token.isMark ":"

/-- Passes a word that modifies the member after it. -/
def modifier (w : String) : Parse Bool := do
  if !(← atWord w) then return false
  match ← ahead (do advance; endsName) with
  | some false =>
    advance
    return true
  | _ => return false

/-- The constructor of a class that has none of its own. -/
def usualConstructor (name : Key) (derived : Bool) : Func :=
  if derived then
    .mk name [] (some (.name (key "args"))) [] []
      [.expr (.superCall [.spread (.name (key "args"))])] (.constructor true) true []
  else .mk name [] none [] [] [] (.constructor false) true []

/-- Reads a member of a class: the constructor apart from the others. -/
def classMember (name : Key) (derived : Bool) : Parse (Option Func × Option Member) := do
  let static ← modifier "static"
  let start ← here
  let kind ← if ← modifier "get" then pure MemberKind.getter
    else if ← modifier "set" then pure MemberKind.setter else pure MemberKind.value
  let (e, n) ← g.memberName
  if ← atMark "(" then
    if !static && kind == .value && n == some (key "constructor") then
      return (some (← g.functionRest start (.constructor derived) name), none)
    else
      let f ← g.functionRest start .method (n.getD [])
      return (none, some (.method static e kind f))
  else if kind != .value then fail "expecting '('"
  else
    let value ← inNewFunction g.defaultValue
    semicolon
    return (none, some (.field static e (.function false
      (.mk [] [] none [] [] [.return value] .method true []))))

/-- Reads a class after its word and its name. The text of the class, which is that of its
constructor too, began where `start` was at hand. -/
def classRest (start : List Char) (name : Key) : Parse ClassTree := do
  let strict := (← get).strict
  modify fun r => { r with strict := true }
  let parent ← if ← acceptWord "extends" then pure (some (← g.assignment false)) else pure none
  expect "\x7b"
  let members ← many (← measure) do
    if ← accept ";" then return some (none, none)
    else if ← atMark "\x7d" then return none
    else return some (← g.classMember name parent.isSome)
  expect "\x7d"
  modify fun r => { r with strict := strict }
  let source ← textSince start
  let others := members.filterMap Prod.snd
  match members.filterMap Prod.fst with
  | [] =>
    return .mk name parent ((usualConstructor name parent.isSome).withSource source) others
  | [f] => return .mk name parent (f.withSource source) others
  | _ => fail "property constructor appears more than once"

end Grammar
end LoadHook.Script
