import LoadHook.Script.Realm
import LoadHook.Script.Statement

/-!
# Running programs

The machine that evaluates itself, nested as deep as its fuel allows, and what a program
does with the global names before its first statement runs. Functions of the host are
called for code of the realm that calls; all others belong to their own realm.
-/
namespace LoadHook.Script

/-! ## Functions of the host -/

/-- What a conversion calls the kind of a value. -/
def kindName (h : Heap) : Value → String
  | .undefined => "undefined"
  | .null => "null"
  | .bool _ => "bool"
  | .num x => if (Numeric.int32? x).isSome then "int" else "float"
  | .str _ => "string"
  | .obj r =>
    let o := h.object r
    if o.isArray then "array"
    else if o.callable then (if h.isConstructor (.obj r) then "constructor" else "function")
    else match o.kind with
      | .error => "exception"
      | _ => "object"

/-- What is said of a value that cannot be converted. -/
def conversionText (h : Heap) (v : Value) (target : String) : String :=
  "Error converting from js '" ++ kindName h v ++ "' into type '" ++ target ++ "'"

/-- What is said of units that are no text. -/
def brokenText (place : Nat) : String :=
  "Conversion from string failed: invalid utf-8 sequence of 1 bytes from index " ++
    String.ofList (Nat.toDigits 10 place)

/-- The text that a value is, or what is said if it is none. -/
def textOf (h : Heap) (v : Value) : Except String String :=
  match v with
  | .str s =>
    match Text.Utf16.toString? s with
    | .ok text => .ok text
    | .error place => .error (brokenText place)
  | v => .error (conversionText h v "string")

/-- An error object of the host, which shows its message. -/
def hostError (realm : RealmRef) (message : String) : Eval Value :=
  Eval.update fun h =>
    let (r, h) := h.addError realm .error [(key "message", .plain (.text message)), stackProperty]
    (.obj r, h)

namespace Machine

variable (m : Machine)

/-- Loads the module that the first argument names. -/
def callRequire (realm : RealmRef) (dir : Path) (args : List Value) : Eval Value := do
  match args with
  | [] => typeError realm "Error calling function with 0 argument(s) while 1 where expected"
  | v :: _ =>
    match ← Eval.read (textOf · v) with
    | .ok specifier => Eval.ask (.require specifier dir realm)
    | .error message => typeError realm message

/-- Writes the texts of the arguments as a line of the log. -/
def callPrint (realm : RealmRef) (level : Level) (args : List Value) : Eval Value := do
  let texts ← Eval.collect (fun v => do
    match Text.Utf16.toString? (← m.toText realm v) with
    | .ok text => return text
    | .error place => typeError realm (brokenText place)) args
  let _ ← Eval.ask (.print level (" ".intercalate texts))
  return .undefined

/-- Calls a function that is not written as a script. -/
def callNative (caller realm : RealmRef) (n : Native) (this : Value) (args : List Value) :
    Eval Value :=
  match n with
  | .method owner name => BuiltIn.call m realm owner name this args
  | .maker maker => BuiltIn.make m realm maker args none
  | .require dir => callRequire caller dir args
  | .print level => m.callPrint caller level args

/-- Calls an object. -/
def callObject (realm : RealmRef) (f this : Value) (args : List Value) : Eval Value := do
  match f with
  | .obj r =>
    match (← Eval.read (·.object r)).kind with
    | .closure c => m.callClosure realm r c this args
    | .native n own => m.callNative realm own n this args
    | .bound target this front => m.call realm (.obj target) this (front ++ args)
    | _ => typeError realm "not a function"
  | _ => typeError realm "not a function"

/-- Constructs with an object. -/
def constructObject (realm : RealmRef) (f : Ref) (args : List Value) (newTarget : Ref) :
    Eval Value := do
  match (← Eval.read (·.object f)).kind with
  | .closure c => m.constructClosure realm f c args newTarget
  | .native (.maker maker) own => BuiltIn.make m own maker args (some newTarget)
  | .bound target _ front =>
    m.construct realm target (front ++ args) (if newTarget == f then target else newTarget)
  | _ => typeError realm "not a constructor"

end Machine

/-- The machine that nests evaluation as deep as its fuel allows. -/
def machine : Nat → Machine
  | 0 => ⟨fun _ _ => Eval.stop .overflow, fun _ _ => Eval.stop .overflow,
      fun _ _ _ _ => Eval.stop .overflow, fun _ _ _ _ => Eval.stop .overflow,
      fun _ _ _ _ => Eval.stop .overflow⟩
  | n + 1 =>
    { expr := fun ctx e => (machine n).evaluate ctx e
      stmt := fun ctx s => (machine n).execute ctx s
      bind := fun ctx mode p v => (machine n).bindPattern ctx mode p v
      call := fun realm f this args => (machine n).callObject realm f this args
      construct := fun realm f args newTarget =>
        (machine n).constructObject realm f args newTarget }

/-- How deep evaluation may be nested. -/
def depthLimit : Nat := 4000

/-- The machine that scripts run on. -/
def standardMachine : Machine := machine depthLimit

/-! ## Programs -/

/-- The functions of a program, of which the last of each name counts. -/
def Program.functionNames (p : Program) : List Key := (functionsOf p.body).map Func.name

/-- Whether a name of a program cannot be declared in a realm: a lexical name must be new and no
fixed property; another name must not be a lexical one. -/
def Heap.clash? (h : Heap) (realm : RealmRef) (p : Program) : Option Key :=
  let r := h.realm realm
  let bound := (h.scope r.lexical).bindings
  let isFixed (k : Key) : Bool := match h.own r.global k with
    | some q => !q.configurable
    | none => false
  let lexical := (lexicalNames p.body).map Prod.fst
  (lexical.find? fun k => (bound.lookup k).isSome || isFixed k).or
    ((p.vars ++ p.functionNames).find? fun k => (bound.lookup k).isSome)

/-- Makes a global variable, unless there is one. -/
def Heap.declareGlobal (h : Heap) (realm : RealmRef) (k : Key) : Heap :=
  let g := (h.realm realm).global
  match h.own g k with
  | some _ => h
  | none => (h.define g k ⟨some .undefined, some true, none, none, some true, some false⟩).2

/-- Makes a global function. -/
def defineGlobalFunction (ctx : Context) (f : Func) : Eval Unit := do
  let r ← Machine.makeFunction ctx false none f
  Eval.change fun h =>
    let g := (h.realm ctx.realm).global
    let replaced := match h.own g f.name with
      | some q => q.configurable
      | none => true
    let d : Descriptor := if replaced then
        ⟨some (.obj r), some true, none, none, some true, some false⟩
      else { value := some (.obj r) }
    (h.define g f.name d).2

/-- Declares the names of a program. -/
def Program.declare (p : Program) (ctx : Context) : Eval Unit := do
  match ← Eval.read (·.clash? ctx.realm p) with
  | some k => raise ctx.realm .syntactic ("redeclaration of '" ++ keyText k ++ "'")
  | none =>
    Eval.each (defineGlobalFunction ctx) (functionsOf p.body)
    Eval.change fun h => p.vars.foldl (fun h k => h.declareGlobal ctx.realm k) h
    Eval.change (·.announce ctx.scope (lexicalNames p.body))

/-- Runs a program in a realm and gives the value of its last expression statement. -/
def Program.run (p : Program) (realm : RealmRef) : Eval Value := do
  let (scope, kept) ← Eval.read fun h => ((h.realm realm).lexical, h.completion)
  let ctx : Context := ⟨scope, realm, scope, p.raised, p.strict, true, []⟩
  Eval.change fun h => { h with completion := .undefined }
  let r ← Eval.outcome (do
    p.declare ctx
    let _ ← standardMachine.sequence ctx p.body
    Eval.read Heap.completion)
  Eval.change fun h => { h with completion := kept }
  match r with
  | .error .overflow => do
    let v ← Machine.overflowError realm
    Eval.throw v
  | r => Eval.ofResult r

/-- Reads and runs the text of a script in a realm. -/
def runText (realm : RealmRef) (strict : Bool) (text : String) : Eval Value := do
  match Program.parse strict text with
  | .ok p => p.run realm
  | .error message => raise realm .syntactic message

end LoadHook.Script
