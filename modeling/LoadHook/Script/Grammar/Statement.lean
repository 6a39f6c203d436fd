import LoadHook.Script.Grammar.Expression

/-!
# The grammar of scripts: statements

Statements and declarations, and whole scripts. `Program.parse` reads a script, or says
what is wrong with it before any of it runs.
-/
namespace LoadHook.Script

namespace Grammar

open Parse

variable (g : Grammar)

/-! ## Declarations -/

/-- Reads what a declaration binds. A pattern needs a value, a constant too. -/
def declarator (binder : Binder) (noIn : Bool) : Parse Target := do
  let p ← g.binding
  if ← accept "=" then return .ofDefault p (some (← g.assignment noIn))
  else
    let loop := noIn && ((← atWord "of") || (← atWord "in"))
    let plain := match p with
      | .name _ => binder != .const
      | _ => false
    if !plain && !loop then fail "missing initializer for const variable"
    return .bind p none

/-- Reads what a declaration binds and the names it binds, its word passed. -/
def declarators (binder : Binder) (noIn : Bool) : Parse (List Key × List Target) := do
  let kept := (← get).bound
  modify fun r => { r with bound := [] }
  let first ← g.declarator binder noIn
  let more ← many (← measure) do
    if ← accept "," then return some (← g.declarator binder noIn) else return none
  let names := (← get).bound.reverse
  modify fun r =>
    { r with bound := kept, vars := if binder = .var then names.reverse ++ r.vars else r.vars }
  if binder != .var && names.contains (key "let") then
    fail "'let' is not a valid lexical identifier"
  return (names, first :: more)

/-- Whether what follows `let` makes it the word of a declaration. -/
def letDeclares : Parse Bool := do
  let next ← ahead do
    advance
    let r ← get
    return match r.token with
      | .name n _ => isNameWord r.strict n || n == key "let" || n == key "yield"
      | t => t.isMark "[" || t.isMark "\x7b"
  return next.getD false

/-- The word of a declaration, if it is at hand. -/
def binder? : Parse (Option Binder) := do
  if ← atWord "var" then return some .var
  else if ← atWord "const" then return some .const
  else if ← atWord "let" then
    if ← letDeclares then return some .let else return none
  else return none

/-! ## Blocks -/

/-- Passes the functions of a block on to what is around it, where `outer` have been passed on
already. In sloppy mode they are variables there too. -/
def raiseFunctions (outer : List Key) (body : List Stmt) : Parse Unit := do
  let functions := (functionsOf body).map Func.name
  modify fun r =>
    let own := if r.strict then [] else functions.reverse
    { r with raised := own ++ raisedNames r.raised functions body ++ outer }

/-- Reads statements up to a closing brace, which it passes, and checks what they declare. -/
def blockRest : Parse (List Stmt) := do
  let outer := (← get).vars
  let raised := (← get).raised
  modify fun r => { r with vars := [], raised := [] }
  let body ← many (← measure) do
    if ← atMark "\x7d" then return none else return some (← g.statement true)
  let inner := (← get).vars
  modify fun r => { r with vars := inner ++ outer }
  let lexical := (lexicalNames body).map Prod.fst
  let functions := (functionsOf body).map Func.name
  if clashes lexical (inner ++ functions) || functions.any inner.contains then
    fail "invalid redefinition of lexical identifier"
  raiseFunctions raised body
  expect "\x7d"
  return body

/-- Reads a block. -/
def block : Parse (List Stmt) := do
  expect "\x7b"
  g.blockRest

/-- Reads a condition in parentheses. -/
def condition : Parse Expr := do
  expect "("
  let e ← g.expression false
  expect ")"
  return e

/-- Reads the body of a loop. -/
def loopBody : Parse Stmt :=
  within (fun s => { s with breakable := true, inLoop := true }) (g.statement false)

/-! ## Loops -/

/-- Reads the rest of a loop over keys or values, if `in` or `of` is at hand. -/
def forEachRest (binder : Option Binder) (names : List Key) (target : Pattern) :
    Parse (Option Stmt) := do
  let keys ← acceptWord "in"
  if keys || (← acceptWord "of") then
    let e ← if keys then g.expression false else g.assignment false
    expect ")"
    return some (.forEach keys binder names target e (← g.loopBody))
  else return none

/-- Reads the rest of a loop with a step, its first part read. -/
def forRest (init : Stmt) : Parse Stmt := do
  expect ";"
  let test ← if ← atMark ";" then pure none else pure (some (← g.expression false))
  expect ";"
  let step ← if ← atMark ")" then pure none else pure (some (← g.expression false))
  expect ")"
  return .for init test step (← g.loopBody)

/-- Reads a `for` loop after its word. -/
def forLoop : Parse Stmt := do
  expect "("
  match ← binder? with
  | some b =>
    advance
    let (names, targets) ← g.declarators b true
    match targets with
    | [.bind p none] =>
      match ← g.forEachRest (some b) names p with
      | some s => return s
      | none => g.forRest (.declare b names targets)
    | _ => g.forRest (.declare b names targets)
  | none =>
    if ← atMark ";" then g.forRest .empty
    else
      let before := (← get).rest.length
      let e ← g.expression true
      if (← atWord "in") || (← atWord "of") then
        match e.toPattern (2 * before + 10) (← get).strict with
        | none => fail "invalid assignment left-hand side"
        | some p =>
          match ← g.forEachRest none [] p with
          | some s => return s
          | none => fail "expecting ';'"
      else g.forRest (.expr e)

/-! ## Other statements -/

/-- Reads the label of a `break` or `continue`, which has to be on the same line. -/
def jumpLabel : Parse (Option Key) := do
  let r ← get
  match r.token with
  | .name n _ =>
    if !r.ended && isNameWord r.strict n then
      if !r.surrounding.labels.contains n then fail "break/continue label not found"
      advance
      return some n
    else return none
  | _ => return none

/-- Reads a `try` statement after its word. -/
def tryRest : Parse Stmt := do
  let body ← g.block
  let kept := (← get).bound
  modify fun r => { r with bound := [] }
  let (handled, names, param, handler) ← if ← acceptWord "catch" then do
      let param ← if ← accept "(" then do
          let p ← g.binding
          expect ")"
          pure (some p)
        else pure none
      let names := (← get).bound
      let handler ← g.block
      if clashes ((lexicalNames handler).map Prod.fst) names then
        fail "invalid redefinition of lexical identifier"
      pure (true, names, param, handler)
    else pure (false, [], none, [])
  modify fun r => { r with bound := kept }
  let final ← acceptWord "finally"
  let finalizer ← if final then g.block else pure []
  if !handled && !final then fail "expecting catch or finally"
  return .try body handled names param handler finalizer

/-- Reads the statements of a case. -/
def caseBody : Parse (List Stmt) := do
  many (← measure) do
    if (← atMark "\x7d") || (← atWord "case") || (← atWord "default") then return none
    else return some (← g.statement true)

/-- Reads a `switch` statement after its word. -/
def switchRest : Parse Stmt := do
  let e ← g.condition
  expect "\x7b"
  let raised := (← get).raised
  modify fun r => { r with raised := [] }
  let cases ← within (fun s => { s with breakable := true }) do
    many (← measure) do
      if ← acceptWord "case" then
        let test ← g.expression false
        expect ":"
        return some (Case.mk (some test) (← g.caseBody))
      else if ← acceptWord "default" then
        expect ":"
        return some (Case.mk none (← g.caseBody))
      else return none
  expect "\x7d"
  let all := cases.flatMap fun c => match c with
    | .mk _ body => body
  if clashes ((lexicalNames all).map Prod.fst) ((functionsOf all).map Func.name) then
    fail "invalid redefinition of lexical identifier"
  raiseFunctions raised all
  let defaults := cases.filter fun c => match c with
    | .mk test _ => test.isNone
  if defaults.length > 1 then fail "duplicate default"
  return .switch e cases

/-- Whether a name with a colon after it is at hand. -/
def atLabel : Parse Bool := do
  let r ← get
  match r.token with
  | .name n _ =>
    if isNameWord r.strict n then return (← ahead (do advance; atMark ":")) == some true
    else return false
  | _ => return false

/-- Reads a statement that begins with an expression. -/
def expressionStatement : Parse Stmt := do
  let e ← g.expression false
  semicolon
  return .expr e

/-- Reads a statement that a word announces. -/
def wordStatement (declares : Bool) (word : String) : Parse Stmt := do
  match word with
  | "function" =>
    if !declares && (← get).strict then
      fail "function declarations can't appear in single-statement context"
    let start ← here
    advance
    let n ← name
    return .function (← g.functionRest start .plain n)
  | "class" =>
    if !declares then fail "class declarations can't appear in single-statement context"
    let start ← here
    advance
    return .class (← g.classRest start (← name))
  | "if" =>
    advance
    let test ← g.condition
    let yes ← g.statement false
    let no ← if ← acceptWord "else" then g.statement false else pure .empty
    return .cond test yes no
  | "for" =>
    advance
    g.forLoop
  | "while" =>
    advance
    let test ← g.condition
    return .while test (← g.loopBody)
  | "do" =>
    advance
    let body ← g.loopBody
    expectWord "while"
    let test ← g.condition
    let _ ← accept ";"
    return .doWhile body test
  | "continue" =>
    advance
    let label ← jumpLabel
    if !(← get).surrounding.inLoop then fail "continue must be inside loop"
    semicolon
    return .continue label
  | "break" =>
    advance
    let label ← jumpLabel
    if label.isNone && !(← get).surrounding.breakable then
      fail "break must be inside loop or switch"
    semicolon
    return .break label
  | "return" =>
    advance
    let r ← get
    if !r.surrounding.inFunction then fail "return not in a function"
    let bare := r.ended || r.token.isMark ";" || r.token.isMark "\x7d" || match r.token with
      | .ending => true
      | _ => false
    let e ← if bare then pure none else pure (some (← g.expression false))
    semicolon
    return .return e
  | "throw" =>
    advance
    if (← get).ended then fail "line terminator not allowed after throw"
    let e ← g.expression false
    semicolon
    return .throw e
  | "try" =>
    advance
    g.tryRest
  | "switch" =>
    advance
    g.switchRest
  | "debugger" =>
    advance
    semicolon
    return .empty
  | _ => g.expressionStatement

/-- The words that announce statements. -/
def statementWords : List String :=
  ["function", "class", "if", "for", "while", "do", "continue", "break", "return", "throw", "try",
   "switch", "debugger"]

/-- Reads a statement; it may be a declaration. -/
def statementWith (declares : Bool) : Parse Stmt := do
  if ← accept ";" then return .empty
  else if ← accept "\x7b" then return .block (← g.blockRest)
  else
    match ← binder? with
    | some b =>
      if b != .var && !declares then
        fail "lexical declarations can't appear in single-statement context"
      advance
      let (names, targets) ← g.declarators b false
      semicolon
      return .declare b names targets
    | none =>
      if ← atLabel then
        let n ← name
        expect ":"
        if (← get).surrounding.labels.contains n then fail "duplicate label name"
        if (← get).strict && (← atWord "function") then
          fail "function declarations can't appear in single-statement context"
        return .labeled n (← within (fun s => { s with labels := n :: s.labels })
          (g.statement declares))
      else
        let t ← token
        match statementWords.find? fun w => t.isWord w with
        | some w => g.wordStatement declares w
        | none => g.expressionStatement

end Grammar

/-! ## Scripts -/

/-- The grammar for text nested at most `fuel` deep. -/
def grammar : Nat → Grammar
  | 0 =>
    { expression := fun _ => Parse.fail "stack overflow"
      assignment := fun _ => Parse.fail "stack overflow"
      binding := Parse.fail "stack overflow"
      statement := fun _ => Parse.fail "stack overflow" }
  | n + 1 =>
    { expression := fun noIn => (grammar n).expressionWith noIn
      assignment := fun noIn => (grammar n).assignmentWith noIn
      binding := fun r => (grammar n).bindingPattern r
      statement := fun declares => (grammar n).statementWith declares }

/-- The text without a mark of byte order and without a first line that names a program. -/
def stripHead (cs : List Char) : List Char :=
  match cs with
  | '#' :: '!' :: rest => rest.dropWhile fun c => !Token.isLineEnd c
  | cs => cs

/-- How deep scripts may be nested. -/
def nestingLimit : Nat := 1000

/-- Reads a script; it may be in strict mode from the start. -/
def Program.parse (strict : Bool) (text : String) : Except String Program := do
  let t ← Token.next (stripHead text.toList)
  let start : Reader :=
    { token := t.token, ended := t.ended, here := t.here, rest := t.rest, passed := t.here
      strict := strict, vars := [], raised := [], bound := []
      surrounding := ⟨false, false, false, []⟩ }
  let atEnd : Parse Bool := do
    match ← Parse.token with
    | .ending => return true
    | _ => return false
  let g := grammar nestingLimit
  let (body, r) ← (g.statements atEnd) start
  let vars := r.vars.reverse.eraseDups
  let ((), _) ← (Grammar.checkBody vars [] body) r
  let raised := Grammar.raisedNames r.raised [] body
  return ⟨vars ++ raised.filter (!vars.contains ·), raised, body, r.strict⟩

end LoadHook.Script
