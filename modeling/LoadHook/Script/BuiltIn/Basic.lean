import LoadHook.Script.Function

/-!
# Built-in functions

A built-in function has a name, says how many arguments it takes, and computes its value
for code of the realm it belongs to.
-/
namespace LoadHook.Script

/-- A built-in function; it is given its realm, `this` and the arguments. -/
structure BuiltIn where
  name : String
  arity : Nat
  run : Machine → RealmRef → Value → List Value → Eval Value

namespace BuiltIn

/-- An argument; one that is not given is undefined. -/
def argument (args : List Value) (i : Nat) : Value := args.getD i .undefined

/-- An index counted from the end if it is negative, between zero and a length. -/
def clamp (length : Nat) (i : Int) : Nat :=
  if i < 0 then (i + length).toNat else min i.toNat length

/-- An argument as an index, clamped to a length. -/
def indexArgument (m : Machine) (realm : RealmRef) (args : List Value) (i length default : Nat) :
    Eval Nat := do
  match argument args i with
  | .undefined => return default
  | v => return clamp length (← m.toInteger realm v)

/-- A list of values as an array. -/
def keyArray (realm : RealmRef) (keys : List Key) : Eval Value :=
  newArray realm (keys.map .str)

end BuiltIn
end LoadHook.Script
