import LoadHook.Script.Machine

/-!
# Conversions and operators

How values become texts, numbers and keys, and what the operators do with them. Objects
are asked for a primitive value through their own methods, so every conversion may run
scripts and may throw.
-/
namespace LoadHook.Script

open Text (Utf16)

/-- What kind of primitive an object is asked for first. -/
inductive Hint where
  | text | number
  deriving DecidableEq

namespace Value

/-- Whether a value counts as true. -/
def truthy : Value → Bool
  | .undefined | .null => false
  | .bool b => b
  | .num x => !(x == 0 || x.isNaN)
  | .str s => !s.isEmpty
  | .obj _ => true

/-- The number of a text. -/
def textNumber (s : Utf16) : Float := Numeric.ofText (Utf16.toString s).toList

/-- The text of a value that is no object. -/
def primitiveText : Value → Utf16
  | .undefined => key "undefined"
  | .null => key "null"
  | .bool b => key (if b then "true" else "false")
  | .num x => key (Numeric.text x)
  | .str s => s
  | .obj _ => []

/-- The number of a value that is no object. -/
def primitiveNumber : Value → Float
  | .undefined => Numeric.nan
  | .null => 0
  | .bool b => if b then 1 else 0
  | .num x => x
  | .str s => textNumber s
  | .obj _ => Numeric.nan

end Value

/-- The text of an error: its name and its message. -/
def joinError (name message : Utf16) : Utf16 :=
  if name.isEmpty then message
  else if message.isEmpty then name
  else name ++ key ": " ++ message

namespace Machine

variable (m : Machine) (realm : RealmRef)

/-- The primitive value of an object, from the first of its methods that gives one. -/
def primitiveOf (r : Ref) : List String → Eval Value
  | [] => typeError realm "toPrimitive"
  | name :: rest => do
    let f ← m.getRef realm r (key name)
    if ← Eval.read (·.callable f) then
      match ← m.call realm f (.obj r) [] with
      | .obj _ => primitiveOf r rest
      | v => return v
    else primitiveOf r rest

/-- The primitive value of a value. -/
def toPrimitive (hint : Hint) : Value → Eval Value
  | .obj r =>
    m.primitiveOf realm r
      (if hint = .text then ["toString", "valueOf"] else ["valueOf", "toString"])
  | v => pure v

/-- The text of a value. -/
def toText (v : Value) : Eval Utf16 := do
  return (← m.toPrimitive realm .text v).primitiveText

/-- The number of a value. -/
def toNumber (v : Value) : Eval Float := do
  return (← m.toPrimitive realm .number v).primitiveNumber

/-- The property key of a value. -/
def toKey (v : Value) : Eval Key := m.toText realm v

/-- The whole number of a value, the infinities counting as the largest magnitudes. -/
def toInteger (v : Value) : Eval Int := do
  let x ← m.toNumber realm v
  if x.isNaN then return 0
  else if Decimal.isFinite x then return Numeric.truncate x
  else return if x < 0 then -Int.pow 2 60 else Int.pow 2 60

/-- The length that an object says it has. -/
def lengthOf (v : Value) : Eval Nat := do
  return (← m.toInteger realm (← m.get realm v lengthKey)).toNat

/-- The object of a value, one that wraps a primitive value if need be. -/
def toObject (v : Value) : Eval Ref := do
  match v with
  | .obj r => return r
  | .undefined | .null => typeError realm "cannot convert to object"
  | .bool b =>
    Eval.update fun h => h.addObject ⟨.boolean b, some (h.realm realm).booleanProto, true, []⟩
  | .num x =>
    Eval.update fun h => h.addObject ⟨.number x, some (h.realm realm).numberProto, true, []⟩
  | .str s =>
    Eval.update fun h => h.addObject ⟨.string s, some (h.realm realm).stringProto, true, []⟩

/-- What `typeof` says of a value. -/
def typeName (h : Heap) : Value → String
  | .undefined => "undefined"
  | .null => "object"
  | .bool _ => "boolean"
  | .num _ => "number"
  | .str _ => "string"
  | .obj r => if (h.object r).callable then "function" else "object"

/-! ## Comparison -/

/-- Whether two values are equal after conversion, at most `fuel` conversions deep. -/
def looselyEqual (fuel : Nat) (a b : Value) : Eval Bool :=
  match fuel with
  | 0 => return Value.same a b
  | n + 1 =>
    match a, b with
    | .undefined, .null | .null, .undefined => return true
    | .num _, .str s => return Value.same a (.num (Value.textNumber s))
    | .str s, .num _ => return Value.same (.num (Value.textNumber s)) b
    | .bool x, b =>
      match b with
      | .bool _ => return Value.same a b
      | _ => looselyEqual n (.num (if x then 1 else 0)) b
    | a, .bool y => looselyEqual n a (.num (if y then 1 else 0))
    | .obj _, .num _ | .obj _, .str _ => do
      looselyEqual n (← m.toPrimitive realm .number a) b
    | .num _, .obj _ | .str _, .obj _ => do
      looselyEqual n a (← m.toPrimitive realm .number b)
    | a, b => return Value.same a b

/-- Whether a sequence of units comes before another. -/
def before : Utf16 → Utf16 → Bool
  | _, [] => false
  | [], _ :: _ => true
  | a :: as, b :: bs => a < b || (a == b && before as bs)

/-- Whether the first of two primitive values is less; none if they cannot be compared. -/
def lessThan (a b : Value) : Option Bool :=
  match a, b with
  | .str s, .str t => some (before s t)
  | a, b =>
    let x := a.primitiveNumber
    let y := b.primitiveNumber
    if x.isNaN || y.isNaN then none else some (x < y)

/-- Whether an object stands above a value. -/
def isInstance (f v : Value) : Eval Bool := do
  match f with
  | .obj r =>
    let o ← Eval.read (·.object r)
    if !o.callable then typeError realm "invalid 'instanceof' right operand"
    let r := match o.kind with
      | .bound target _ _ => target
      | _ => r
    match v with
    | .obj x =>
      match ← m.getRef realm r (key "prototype") with
      | .obj proto => Eval.read fun h => h.isAbove (h.objects.size + 1) proto x
      | _ => typeError realm "operand 'prototype' property is not an object"
    | _ => return false
  | _ => typeError realm "invalid 'instanceof' right operand"

/-- Whether an object or one above it has a property. -/
def hasProperty (v : Value) (k : Value) : Eval Bool := do
  match v with
  | .obj r =>
    let k ← m.toKey realm k
    return (← Eval.read (·.find r k)).isSome
  | _ => typeError realm "invalid 'in' operand"

/-! ## Operators -/

/-- An operator on the bits of two numbers. -/
def bitwise (op : UInt32 → UInt32 → UInt32) (a b : Value) : Eval Value := do
  let x ← m.toNumber realm a
  let y ← m.toNumber realm b
  return .num (Numeric.ofInt (Numeric.signed (op (Numeric.toUInt32 x) (Numeric.toUInt32 y))))

/-- An operator on two numbers. -/
def arithmetic (op : Float → Float → Float) (a b : Value) : Eval Value := do
  let x ← m.toNumber realm a
  let y ← m.toNumber realm b
  return .num (op x y)

/-- A comparison, of which `swap` changes the sides and `negate` the answer. -/
def compare (swap negate : Bool) (a b : Value) : Eval Value := do
  let a ← m.toPrimitive realm .number a
  let b ← m.toPrimitive realm .number b
  return .bool (match if swap then lessThan b a else lessThan a b with
    | some less => less != negate
    | none => false)

/-- The sum of two numbers, or the texts of two values joined. -/
def add (a b : Value) : Eval Value := do
  let a ← m.toPrimitive realm .number a
  let b ← m.toPrimitive realm .number b
  match a, b with
  | .str s, b => return .str (s ++ b.primitiveText)
  | a, .str t => return .str (a.primitiveText ++ t)
  | a, b => return .num (a.primitiveNumber + b.primitiveNumber)

/-- A number of 32 bits shifted to the right, the sign filling up. -/
def shiftRight (x y : Float) : Float :=
  Numeric.ofInt ((Numeric.toInt32 x).shiftRight ((Numeric.toUInt32 y).toNat % 32))

/-- A number of 32 bits without sign shifted to the right. -/
def shiftRightZero (x y : Float) : Float :=
  Numeric.ofInt (((Numeric.toUInt32 x).toNat >>> ((Numeric.toUInt32 y).toNat % 32) : Nat))

/-- The value of an operator between two values. -/
def binary (op : BinaryOp) (a b : Value) : Eval Value :=
  match op with
  | .add => m.add realm a b
  | .sub => m.arithmetic realm (· - ·) a b
  | .mul => m.arithmetic realm (· * ·) a b
  | .div => m.arithmetic realm (· / ·) a b
  | .rem => m.arithmetic realm Numeric.remainder a b
  | .pow => m.arithmetic realm Numeric.power a b
  | .shiftLeft => m.bitwise realm (fun x y => x <<< (y % 32)) a b
  | .shiftRight => m.arithmetic realm shiftRight a b
  | .shiftRightZero => m.arithmetic realm shiftRightZero a b
  | .bitAnd => m.bitwise realm (· &&& ·) a b
  | .bitOr => m.bitwise realm (· ||| ·) a b
  | .bitXor => m.bitwise realm (· ^^^ ·) a b
  | .less => m.compare realm false false a b
  | .greater => m.compare realm true false a b
  | .lessEq => m.compare realm true true a b
  | .greaterEq => m.compare realm false true a b
  | .equal => do return .bool (← m.looselyEqual realm 4 a b)
  | .notEqual => do return .bool !(← m.looselyEqual realm 4 a b)
  | .same => return .bool (Value.same a b)
  | .notSame => return .bool !(Value.same a b)
  | .instanceOf => do return .bool (← m.isInstance realm b a)
  | .isIn => do return .bool (← m.hasProperty realm b a)

/-- The value of an operator on one value. -/
def unary (op : UnaryOp) (v : Value) : Eval Value := do
  match op with
  | .minus => return .num (-(← m.toNumber realm v))
  | .plus => return .num (← m.toNumber realm v)
  | .not => return .bool !v.truthy
  | .bitNot => return .num (Numeric.ofInt (-(Numeric.toInt32 (← m.toNumber realm v)) - 1))
  | .typeOf => return .text (typeName (← Eval.read id) v)
  | .void => return .undefined

end Machine
end LoadHook.Script
