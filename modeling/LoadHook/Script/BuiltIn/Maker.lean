import LoadHook.Script.BuiltIn.Basic
import LoadHook.Script.Grammar.Statement

/-!
# Built-in constructors

What the built-in constructors make, called or constructed with, and what errors inherit.
-/
namespace LoadHook.Script.BuiltIn

open Machine (toObject)

variable (m : Machine) (realm : RealmRef)

/-! ## Errors -/

/-- A part of an error's text, with a default. -/
def errorPart (v : Value) (name default : String) : Eval Text.Utf16 := do
  match ← m.get realm v (key name) with
  | .undefined => return key default
  | x => m.toText realm x

/-- The functions that every error inherits. -/
def errorMethods : List BuiltIn := [
  ⟨"toString", 0, fun m realm this _ => do
    match this with
    | .obj _ =>
      let name ← errorPart m realm this "name" "Error"
      return .str (joinError name (← errorPart m realm this "message" ""))
    | _ => typeError realm "not an object"⟩]

/-- A new error with the message and the cause that are given. -/
def newError (kind : ErrorKind) (proto : Ref) (args : List Value) : Eval Value := do
  let message ← match argument args 0 with
    | .undefined => pure []
    | v => do pure [(key "message", Property.hidden (.str (← m.toText realm v)))]
  let cause ← match argument args 1 with
    | .obj r => do
      if (← Eval.read (·.find r (key "cause"))).isSome then
        pure [(key "cause", Property.hidden (← m.getRef realm r (key "cause")))]
      else pure []
    | _ => pure []
  Eval.update fun h =>
    let (r, h) := h.addError realm kind (message ++ cause ++ [stackProperty])
    (.obj r, h.modifyObject r fun o => { o with proto := some proto })

/-! ## Functions from text -/

/-- A function whose parameters and body are given as texts. -/
def functionFromText (args : List Value) : Eval Value := do
  let texts ← Eval.collect (fun v => do
    return Text.Utf16.toString (← m.toText realm v)) args
  let params := ",".intercalate (texts.take (texts.length - 1))
  let body := texts.getLast?.getD ""
  let source := "(function anonymous(" ++ params ++ "\n) \x7b\n" ++ body ++ "\n\x7d)"
  match Program.parse false source with
  | .ok ⟨_, _, [.expr (.group e)], _⟩ =>
    let scope ← Eval.read fun h => (h.realm realm).lexical
    m.expr ⟨scope, realm, scope, [], false, false, []⟩ e
  | .ok _ => raise realm .syntactic "invalid function"
  | .error message => raise realm .syntactic message

/-! ## Making -/

/-- The default object above what a constructor makes. -/
def protoOf (maker : Maker) (r : Realm) : Ref :=
  match maker with
  | .object => r.objectProto
  | .function => r.functionProto
  | .array => r.arrayProto
  | .string => r.stringProto
  | .number => r.numberProto
  | .boolean => r.booleanProto
  | .error kind => (r.errorProtos.lookup kind).getD r.objectProto

/-- A new array of a length, or of elements. -/
def newArrayFor (proto : Ref) (args : List Value) : Eval Value := do
  match args with
  | [.num x] =>
    let n := Numeric.toUInt32 x
    if n.toNat.toFloat != x then raise realm .range "invalid array length"
    return .obj (← Eval.update (·.addObject ⟨.array, some proto, true,
      [(lengthKey, ⟨.data (.num x) true, false, false⟩)]⟩))
  | vs => return .obj (← Eval.update (·.addArray proto (vs.map some)))

/-- An object that wraps a primitive value. -/
def wrap (kind : Kind) (proto : Ref) : Eval Value := do
  return .obj (← Eval.update (·.addObject ⟨kind, some proto, true, []⟩))

/-- What a built-in constructor gives when it is called, or constructs for a new target. -/
def make (maker : Maker) (args : List Value) (newTarget : Option Ref) : Eval Value := do
  let v := argument args 0
  let proto ← match newTarget with
    | some r => m.protoFor realm r (protoOf maker)
    | none => Eval.read fun h => protoOf maker (h.realm realm)
  match maker with
  | .object =>
    if v.isPresent then return .obj (← toObject realm v)
    else return .obj (← Eval.update (·.addPlain (some proto)))
  | .function => functionFromText m realm args
  | .array => newArrayFor realm proto args
  | .string =>
    let s ← if args.isEmpty then pure [] else m.toText realm v
    if newTarget.isSome then wrap (.string s) proto else return .str s
  | .number =>
    let x ← if args.isEmpty then pure 0 else m.toNumber realm v
    if newTarget.isSome then wrap (.number x) proto else return .num x
  | .boolean =>
    if newTarget.isSome then wrap (.boolean v.truthy) proto else return .bool v.truthy
  | .error kind => newError m realm kind proto args

end LoadHook.Script.BuiltIn
