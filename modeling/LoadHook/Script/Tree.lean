import LoadHook.Text.Utf16

/-!
# Script syntax trees

Scripts after reading. Names and property keys are sequences of 16-bit units.
-/
namespace LoadHook.Script

/-- A name or property key. -/
abbrev Key := Text.Utf16

/-- The key of a text. -/
abbrev key (s : String) : Key := Text.Utf16.ofString s

/-- Operators on one value. -/
inductive UnaryOp where
  | minus | plus | not | bitNot | typeOf | void
  deriving DecidableEq, Repr

/-- Operators on two values. -/
inductive BinaryOp where
  | add | sub | mul | div | rem | pow
  | shiftLeft | shiftRight | shiftRightZero | bitAnd | bitOr | bitXor
  | less | greater | lessEq | greaterEq | equal | notEqual | same | notSame
  | instanceOf | isIn
  deriving DecidableEq, Repr

/-- Operators that may leave out their second operand. -/
inductive LogicalOp where
  | and | or | coalesce
  deriving DecidableEq, Repr

/-- How a variable is declared. -/
inductive Binder where
  | var | «let» | const
  deriving DecidableEq, Repr

/-- What kind of function a function is. -/
inductive FunctionKind where
  /-- It can be constructed. -/
  | plain
  /-- It takes `this` from around it. -/
  | arrow
  /-- It cannot be constructed. -/
  | method
  /-- A class constructor, of a class without or with a parent. -/
  | constructor (derived : Bool)
  deriving DecidableEq, Repr

/-- What a member of an object or class adds. -/
inductive MemberKind where
  | value | getter | setter
  deriving DecidableEq, Repr

mutual

/-- An expression. -/
inductive Expr where
  | null
  | bool (b : Bool)
  | num (x : Float)
  | str (s : Text.Utf16)
  | template (texts : List Text.Utf16) (parts : List Item)
  | this
  | newTarget
  | name (n : Key)
  | array (items : List Item)
  | object (members : List Member)
  /-- A function, which may know itself by its name. -/
  | function (named : Bool) (f : Func)
  | class (c : ClassTree)
  | unary (op : UnaryOp) (e : Expr)
  | delete (e : Expr)
  | update (increment before : Bool) (place : Expr)
  | binary (op : BinaryOp) (a b : Expr)
  | logical (op : LogicalOp) (a b : Expr)
  | assign (target : Pattern) (e : Expr)
  | assignWith (op : BinaryOp) (place e : Expr)
  | assignLogical (op : LogicalOp) (place e : Expr)
  | cond (test yes no : Expr)
  | sequence (a b : Expr)
  | member (e : Expr) (k : Key)
  | index (e i : Expr)
  | call (f : Expr) (args : List Item)
  | construct (f : Expr) (args : List Item)
  | superCall (args : List Item)
  | superMember (k : Expr)
  /-- A chain of which a part may be left out. -/
  | chain (e : Expr)
  /-- A part of a chain that ends it when its value is missing. -/
  | optional (e : Expr)
  /-- An expression in parentheses. -/
  | group (e : Expr)

/-- An item of an array, template or argument list. -/
inductive Item where
  | hole
  | one (e : Expr)
  | spread (e : Expr)

/-- A member of an object or class; its name is an expression. -/
inductive Member where
  | field (static : Bool) (name e : Expr)
  | method (static : Bool) (name : Expr) (kind : MemberKind) (f : Func)
  | proto (e : Expr)
  | spread (e : Expr)

/-- What is assigned to. -/
inductive Pattern where
  | name (n : Key)
  | place (e : Expr)
  | array (items : List Target) (rest : Option Pattern)
  | object (fields : List Field) (rest : Option Pattern)

/-- A pattern with a default, or a place that is passed over. -/
inductive Target where
  | hole
  | bind (p : Pattern) (default : Option Expr)

/-- A named part of an object pattern. -/
inductive Field where
  | mk (name : Expr) (target : Target)

/-- A function; `vars` are the names that `var` declares in it, `raised` those of functions in
blocks that are variables of the whole function too, and `source` is the text of the function. -/
inductive Func where
  | mk (name : Key) (params : List Target) (rest : Option Pattern) (vars raised : List Key)
      (body : List Stmt) (kind : FunctionKind) (strict : Bool) (source : Text.Utf16)

/-- A class. -/
inductive ClassTree where
  | mk (name : Key) (parent : Option Expr) (constructor : Func) (members : List Member)

/-- A statement. -/
inductive Stmt where
  | empty
  | expr (e : Expr)
  | declare (binder : Binder) (names : List Key) (items : List Target)
  | function (f : Func)
  | class (c : ClassTree)
  | block (body : List Stmt)
  | cond (test : Expr) (yes no : Stmt)
  | while (test : Expr) (body : Stmt)
  | doWhile (body : Stmt) (test : Expr)
  | for (init : Stmt) (test step : Option Expr) (body : Stmt)
  /-- A loop over the keys of an object, or over the values of a list. -/
  | forEach (keys : Bool) (binder : Option Binder) (names : List Key) (target : Pattern)
      (e : Expr) (body : Stmt)
  | return (e : Option Expr)
  | break (label : Option Key)
  | continue (label : Option Key)
  | throw (e : Expr)
  | try (body : List Stmt) (handled : Bool) (names : List Key) (param : Option Pattern)
      (handler finalizer : List Stmt)
  | switch (e : Expr) (cases : List Case)
  | labeled (label : Key) (body : Stmt)

/-- A case of a switch, the default one without test. -/
inductive Case where
  | mk (test : Option Expr) (body : List Stmt)

end

namespace Func

/-- The name of a function. -/
def name : Func → Key
  | .mk n _ _ _ _ _ _ _ _ => n

/-- The parameters of a function. -/
def params : Func → List Target
  | .mk _ ps _ _ _ _ _ _ _ => ps

/-- The pattern for the remaining arguments. -/
def rest : Func → Option Pattern
  | .mk _ _ r _ _ _ _ _ _ => r

/-- The names that `var` declares in a function. -/
def vars : Func → List Key
  | .mk _ _ _ vs _ _ _ _ _ => vs

/-- The names of functions in blocks that are variables of the whole function too. -/
def raised : Func → List Key
  | .mk _ _ _ _ rs _ _ _ _ => rs

/-- The statements of a function. -/
def body : Func → List Stmt
  | .mk _ _ _ _ _ b _ _ _ => b

/-- The kind of a function. -/
def kind : Func → FunctionKind
  | .mk _ _ _ _ _ _ k _ _ => k

/-- Whether a function is in strict mode. -/
def strict : Func → Bool
  | .mk _ _ _ _ _ _ _ s _ => s

/-- The text of a function. -/
def source : Func → Text.Utf16
  | .mk _ _ _ _ _ _ _ _ t => t

/-- A function under another name. -/
def withName (f : Func) (n : Key) : Func :=
  .mk n f.params f.rest f.vars f.raised f.body f.kind f.strict f.source

/-- A function with another text. -/
def withSource (f : Func) (t : Text.Utf16) : Func :=
  .mk f.name f.params f.rest f.vars f.raised f.body f.kind f.strict t

/-- How many parameters stand before the first with a default. -/
def arity (f : Func) : Nat :=
  (f.params.takeWhile fun p => match p with
    | .bind _ none => true
    | _ => false).length

end Func

/-- The name of a class. -/
def ClassTree.name : ClassTree → Key
  | .mk n _ _ _ => n

/-- A script: the names that `var` declares in it, those of functions in blocks that are global
too, its statements, and whether it is in strict mode. -/
structure Program where
  vars : List Key
  raised : List Key
  body : List Stmt
  strict : Bool

/-- The functions that statements declare directly. -/
def functionsOf (body : List Stmt) : List Func :=
  body.filterMap fun s => match s with
    | .function f => some f
    | .labeled _ (.function f) => some f
    | _ => none

/-- The names that `let`, `const` and `class` declare directly, with whether they are constant. -/
def lexicalNames (body : List Stmt) : List (Key × Bool) :=
  body.flatMap fun s => match s with
    | .declare .let names _ => names.map (·, false)
    | .declare .const names _ => names.map (·, true)
    | .class c => [(c.name, false)]
    | _ => []

end LoadHook.Script
