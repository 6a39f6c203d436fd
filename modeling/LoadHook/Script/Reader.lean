import LoadHook.Script.Token

/-!
# Reading scripts: state

The state of a reader: the token at hand, the text after it, and what the text around it
allows. The operations pass tokens, expect them, and end statements.
-/
namespace LoadHook.Script

open Text (Utf16)

/-- What surrounds the text being read. -/
structure Surrounding where
  inFunction : Bool
  breakable : Bool
  inLoop : Bool
  labels : List Key

/-- The state of a reader. -/
structure Reader where
  token : Token
  /-- Whether a line ended before the token. -/
  ended : Bool
  /-- The text from the token on. -/
  here : List Char
  /-- The text after the token. -/
  rest : List Char
  /-- The text after the token that was passed last. -/
  passed : List Char
  strict : Bool
  /-- The names that `var` has declared so far, the last one first. -/
  vars : List Key
  /-- The names of functions in blocks that may be variables of the whole function too. -/
  raised : List Key
  /-- The names that the declaration at hand binds, the last one first. -/
  bound : List Key
  surrounding : Surrounding

/-- Reads a part of a script, or fails with a text. -/
abbrev Parse := StateT Reader (Except String)

namespace Parse

/-- Fails. -/
def fail {α : Type} (message : String) : Parse α := fun _ => .error message

/-- The token at hand. -/
def token : Parse Token := return (← get).token

/-- Passes a token. -/
def advance : Parse Unit := fun r => do
  let t ← Token.next r.rest
  return ((), { r with
    token := t.token, ended := t.ended, here := t.here, rest := t.rest, passed := r.rest })

/-- The text from the token at hand on. -/
def here : Parse (List Char) := return (← get).here

/-- The text that has been passed since the text from there on was at hand. -/
def textSince (start : List Char) : Parse Text.Utf16 := do
  let r ← get
  return Text.Utf16.ofChars (start.take (start.length - r.passed.length))

/-- Whether a mark is at hand. -/
def atMark (m : String) : Parse Bool := return (← get).token.isMark m

/-- Whether a word is at hand. -/
def atWord (w : String) : Parse Bool := return (← get).token.isWord w

/-- Passes a mark if it is at hand. -/
def accept (m : String) : Parse Bool := do
  if ← atMark m then
    advance
    return true
  else return false

/-- Passes a word if it is at hand. -/
def acceptWord (w : String) : Parse Bool := do
  if ← atWord w then
    advance
    return true
  else return false

/-- Passes a mark that has to be at hand. -/
def expect (m : String) : Parse Unit := do
  if !(← accept m) then fail ("expecting '" ++ m ++ "'")

/-- Passes a word that has to be at hand. -/
def expectWord (w : String) : Parse Unit := do
  if !(← acceptWord w) then fail ("expecting '" ++ w ++ "'")

/-- Passes the end of a statement, which may go without saying at a line's end. -/
def semicolon : Parse Unit := do
  if !(← accept ";") then
    let r ← get
    match r.token with
    | .ending => return ()
    | t => if !(t.isMark "\x7d" || r.ended) then fail "expecting ';'"

/-- Runs a reader and goes back to where it began if it fails. -/
def attempt {α : Type} (p : Parse α) : Parse (Option α) := fun r =>
  match p r with
  | .ok (a, r) => .ok (some a, r)
  | .error _ => .ok (none, r)

/-- What a reader would read, without passing it. -/
def ahead {α : Type} (p : Parse α) : Parse (Option α) := fun r =>
  match p r with
  | .ok (a, _) => .ok (some a, r)
  | .error _ => .ok (none, r)

/-- Reads items, at most `fuel` of them, until there is none. -/
def many {α : Type} (fuel : Nat) (item : Parse (Option α)) : Parse (List α) :=
  match fuel with
  | 0 => fail "stack overflow"
  | n + 1 => do
    match ← item with
    | none => return []
    | some a => return a :: (← many n item)

/-- Changes a value step by step, at most `fuel` times, until a step leaves it. -/
def grow {α : Type} (fuel : Nat) (step : α → Parse (Option α)) (a : α) : Parse α :=
  match fuel with
  | 0 => fail "stack overflow"
  | n + 1 => do
    match ← step a with
    | none => return a
    | some b => grow n step b

/-- How many tokens may still come. -/
def measure : Parse Nat := return (← get).rest.length + 3

/-- Reads what stands between marks with commas between two items. -/
def commaList {α : Type} (close : String) (item : Parse α) : Parse (List α) := do
  let items ← many (← measure) do
    if ← atMark close then return none
    else
      let a ← item
      if !(← atMark close) then expect ","
      return some a
  expect close
  return items

/-- Reads with other surroundings. -/
def within {α : Type} (change : Surrounding → Surrounding) (p : Parse α) : Parse α := do
  let kept := (← get).surrounding
  modify fun r => { r with surrounding := change r.surrounding }
  let a ← p
  modify fun r => { r with surrounding := kept }
  return a

end Parse

/-! ## Names -/

/-- Words that are never names. -/
def reservedWords : List Key :=
  ["break", "case", "catch", "class", "const", "continue", "debugger", "default", "delete", "do",
   "else", "enum", "export", "extends", "false", "finally", "for", "function", "if", "import", "in",
   "instanceof", "new", "null", "return", "super", "switch", "this", "throw", "true", "try",
   "typeof", "var", "void", "while", "with"].map key

/-- Words that are no names in strict mode. -/
def strictWords : List Key :=
  ["implements", "interface", "let", "package", "private", "protected", "public", "static",
   "yield"].map key

/-- Whether a word may be a name. -/
def isNameWord (strict : Bool) (n : Key) : Bool :=
  !reservedWords.contains n && !(strict && strictWords.contains n)

/-- Whether strict mode keeps a name from being bound or assigned to. -/
def isGuarded (n : Key) : Bool := n == key "eval" || n == key "arguments"

namespace Parse

/-- Passes a name. -/
def name : Parse Key := do
  let r ← get
  match r.token with
  | .name n _ =>
    if isNameWord r.strict n then
      advance
      return n
    else fail "unexpected token in expression"
  | _ => fail "variable name expected"

/-- Passes a name that is bound. -/
def bindingName : Parse Key := do
  let n ← name
  if (← get).strict && isGuarded n then fail "invalid variable name in strict mode"
  modify fun r => { r with bound := n :: r.bound }
  return n

/-- Passes a word of any kind. -/
def anyWord : Parse Key := do
  match ← token with
  | .name n _ =>
    advance
    return n
  | _ => fail "expecting field name"

end Parse
end LoadHook.Script
