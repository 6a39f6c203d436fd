import LoadHook.Script.BuiltIn.Basic

/-!
# Functions on functions

What every function inherits: calling it with a chosen `this`, and binding arguments.
-/
namespace LoadHook.Script.BuiltIn

/-- The function that a method is called on. -/
def needFunction (realm : RealmRef) (v : Value) : Eval Ref := do
  match v with
  | .obj r =>
    if (← Eval.read (·.object r)).callable then return r else typeError realm "not a function"
  | _ => typeError realm "not a function"

/-- The elements of a list of arguments. -/
def argumentList (m : Machine) (realm : RealmRef) (v : Value) : Eval (List Value) := do
  match v with
  | .undefined | .null => return []
  | .obj _ =>
    Eval.collect (fun i => m.get realm v (natKey i)) (List.range (← m.lengthOf realm v))
  | _ => typeError realm "not an object"

/-- The functions that every function inherits. -/
def functionMethods : List BuiltIn := [
  ⟨"call", 1, fun m realm this args => do
    let f ← needFunction realm this
    m.call realm (.obj f) (argument args 0) args.tail⟩,
  ⟨"apply", 2, fun m realm this args => do
    let f ← needFunction realm this
    m.call realm (.obj f) (argument args 0) (← argumentList m realm (argument args 1))⟩,
  ⟨"bind", 1, fun m realm this args => do
    let f ← needFunction realm this
    let length := (← m.toInteger realm (← m.getRef realm f lengthKey)).toNat - args.tail.length
    let name ← match ← m.getRef realm f (key "name") with
      | .str s => pure s
      | _ => pure []
    Eval.update fun h =>
      let (r, h) := h.addObject ⟨.bound f (argument args 0) args.tail, (h.object f).proto, true,
        [(lengthKey, ⟨.data (.nat length) false, false, true⟩),
         (key "name", ⟨.data (.str (key "bound " ++ name)) false, false, true⟩)]⟩
      (.obj r, h)⟩,
  ⟨"toString", 0, fun m realm this _ => do
    let f ← needFunction realm this
    match (← Eval.read (·.object f)).kind with
    | .closure c => return .str c.func.source
    | _ =>
      let name ← match ← m.getRef realm f (key "name") with
        | .str s => pure s
        | _ => pure []
      return .str (key "function " ++ name ++ key "() \x7b\n    [native code]\n\x7d")⟩]

end LoadHook.Script.BuiltIn
