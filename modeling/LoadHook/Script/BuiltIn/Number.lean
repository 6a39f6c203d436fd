import LoadHook.Script.BuiltIn.Basic

/-!
# Functions on numbers and truth values

What the constructor of numbers offers, what numbers and truth values inherit, the
mathematical functions, and the global functions, which are all about numbers.
-/
namespace LoadHook.Script.BuiltIn

variable (m : Machine) (realm : RealmRef)

/-- The characters of the text of an argument. -/
def textArgument (args : List Value) (i : Nat) : Eval (List Char) := do
  return (Text.Utf16.toString (← m.toText realm (argument args i))).toList

/-- The functions that read numbers. -/
def numberReaders : List BuiltIn := [
  ⟨"parseInt", 2, fun m realm _ args => do
    let text ← textArgument m realm args 0
    let base := Numeric.toInt32 (← m.toNumber realm (argument args 1))
    return .num (Numeric.parseInt text base)⟩,
  ⟨"parseFloat", 1, fun m realm _ args => do
    return .num (Numeric.parseFloat (← textArgument m realm args 0))⟩]

/-- The global functions. -/
def globalFunctions : List BuiltIn := numberReaders ++ [
  ⟨"isNaN", 1, fun m realm _ args => do
    return .bool (← m.toNumber realm (argument args 0)).isNaN⟩,
  ⟨"isFinite", 1, fun m realm _ args => do
    return .bool (Decimal.isFinite (← m.toNumber realm (argument args 0)))⟩]

/-- Whether a value is a number with a property. -/
def numberTest (f : Float → Bool) : Value → Value
  | .num x => .bool (f x)
  | _ => .bool false

/-- The functions of the constructor of numbers. -/
def numberFunctions : List BuiltIn := numberReaders ++ [
  ⟨"isNaN", 1, fun _ _ _ args => return numberTest Float.isNaN (argument args 0)⟩,
  ⟨"isFinite", 1, fun _ _ _ args => return numberTest Decimal.isFinite (argument args 0)⟩,
  ⟨"isInteger", 1, fun _ _ _ args => return numberTest Numeric.isWhole (argument args 0)⟩,
  ⟨"isSafeInteger", 1, fun _ _ _ args =>
    return numberTest (fun x => Numeric.isWhole x && (Numeric.truncate x).natAbs < Nat.pow 2 53)
      (argument args 0)⟩]

/-- The constants of the constructor of numbers. -/
def numberConstants : List (String × Float) := [
  ("MAX_SAFE_INTEGER", Decimal.nearest (Nat.pow 2 53 - 1) 1),
  ("MIN_SAFE_INTEGER", -(Decimal.nearest (Nat.pow 2 53 - 1) 1)),
  ("MAX_VALUE", Float.ofBits 0x7FEFFFFFFFFFFFFF),
  ("MIN_VALUE", Float.ofBits 1),
  ("EPSILON", Float.ofBits 0x3CB0000000000000),
  ("POSITIVE_INFINITY", Numeric.infinity),
  ("NEGATIVE_INFINITY", -Numeric.infinity),
  ("NaN", Numeric.nan)]

/-- The number that a value is or wraps. -/
def wrappedNumber (this : Value) : Eval Float := do
  match this with
  | .num x => return x
  | .obj r =>
    match (← Eval.read (·.object r)).kind with
    | .number x => return x
    | _ => typeError realm "not a number"
  | _ => typeError realm "not a number"

/-- The functions that every number inherits. -/
def numberMethods : List BuiltIn := [
  ⟨"toString", 1, fun m realm this args => do
    let x ← wrappedNumber realm this
    match argument args 0 with
    | .undefined => return .text (Numeric.text x)
    | v =>
      let base ← m.toInteger realm v
      if base < 2 || base > 36 then raise realm .range "radix must be between 2 and 36"
      return .text (Numeric.inBase x base.toNat)⟩,
  ⟨"toFixed", 1, fun m realm this args => do
    let x ← wrappedNumber realm this
    let places ← m.toInteger realm (argument args 0)
    if places < 0 || places > 100 then
      raise realm .range "toFixed() digits argument must be between 0 and 100"
    if Decimal.isFinite x && x.abs < 1e21 then return .text (Numeric.fixed x places.toNat)
    else return .text (Numeric.text x)⟩,
  ⟨"toLocaleString", 0, fun _ realm this _ => do
    return .text (Numeric.text (← wrappedNumber realm this))⟩,
  ⟨"valueOf", 0, fun _ realm this _ => return .num (← wrappedNumber realm this)⟩]

/-- The truth value that a value is or wraps. -/
def wrappedBool (this : Value) : Eval Bool := do
  match this with
  | .bool b => return b
  | .obj r =>
    match (← Eval.read (·.object r)).kind with
    | .boolean b => return b
    | _ => typeError realm "not a boolean"
  | _ => typeError realm "not a boolean"

/-- The functions that every truth value inherits. -/
def boolMethods : List BuiltIn := [
  ⟨"toString", 0, fun _ realm this _ => do
    return .text (if ← wrappedBool realm this then "true" else "false")⟩,
  ⟨"valueOf", 0, fun _ realm this _ => return .bool (← wrappedBool realm this)⟩]

/-! ## Mathematics -/

/-- A function of one number. -/
def unaryMath (name : String) (f : Float → Float) : BuiltIn :=
  ⟨name, 1, fun m realm _ args => do return .num (f (← m.toNumber realm (argument args 0)))⟩

/-- A function of two numbers. -/
def binaryMath (name : String) (f : Float → Float → Float) : BuiltIn :=
  ⟨name, 2, fun m realm _ args => do
    let x ← m.toNumber realm (argument args 0)
    return .num (f x (← m.toNumber realm (argument args 1)))⟩

/-- A function of any number of numbers. -/
def listMath (name : String) (f : List Float → Float) : BuiltIn :=
  ⟨name, 2, fun m realm _ args => do return .num (f (← Eval.collect (m.toNumber realm) args))⟩

/-- The larger of two numbers, zero being larger than minus zero. -/
def larger (x y : Float) : Float :=
  if x.isNaN || y.isNaN then Numeric.nan
  else if x == y then (if Decimal.isNegative x then y else x)
  else if x < y then y else x

/-- The smaller of two numbers. -/
def smaller (x y : Float) : Float :=
  if x.isNaN || y.isNaN then Numeric.nan
  else if x == y then (if Decimal.isNegative x then x else y)
  else if x < y then x else y

/-- The nearest whole number, a half going up. -/
def roundHalfUp (x : Float) : Float :=
  if !Decimal.isFinite x || Numeric.isWhole x then x
  else if -0.5 ≤ x && x < 0 then -0.0
  else
    let down := x.floor
    if x - down < 0.5 then down else down + 1

/-- A number without its fraction. -/
def withoutFraction (x : Float) : Float := if x < 0 then x.ceil else x.floor

/-- The sign of a number. -/
def signOf (x : Float) : Float := if x > 0 then 1 else if x < 0 then -1 else x

/-- The mathematical functions. -/
def mathFunctions : List BuiltIn := [
  unaryMath "abs" Float.abs, unaryMath "floor" Float.floor, unaryMath "ceil" Float.ceil,
  unaryMath "round" roundHalfUp, unaryMath "trunc" withoutFraction, unaryMath "sign" signOf,
  unaryMath "sqrt" Float.sqrt, unaryMath "cbrt" Float.cbrt,
  unaryMath "exp" Float.exp, unaryMath "log" Float.log, unaryMath "log2" Float.log2,
  unaryMath "log10" Float.log10, unaryMath "sin" Float.sin, unaryMath "cos" Float.cos,
  unaryMath "tan" Float.tan, unaryMath "asin" Float.asin, unaryMath "acos" Float.acos,
  unaryMath "atan" Float.atan, binaryMath "atan2" Float.atan2, binaryMath "pow" Numeric.power,
  listMath "max" (·.foldl larger (-Numeric.infinity)),
  listMath "min" (·.foldl smaller Numeric.infinity),
  listMath "hypot" fun xs => (xs.foldl (fun s x => s + x * x) 0).sqrt]

/-- The mathematical constants. -/
def mathConstants : List (String × Float) := [
  ("E", Float.ofBits 0x4005BF0A8B145769), ("LN10", Float.ofBits 0x40026BB1BBB55516),
  ("LN2", Float.ofBits 0x3FE62E42FEFA39EF), ("LOG2E", Float.ofBits 0x3FF71547652B82FE),
  ("LOG10E", Float.ofBits 0x3FDBCB7B1526E50E), ("PI", Float.ofBits 0x400921FB54442D18),
  ("SQRT1_2", Float.ofBits 0x3FE6A09E667F3BCD), ("SQRT2", Float.ofBits 0x3FF6A09E667F3BCD)]

end LoadHook.Script.BuiltIn
