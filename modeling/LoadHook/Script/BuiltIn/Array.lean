import LoadHook.Script.BuiltIn.Basic

/-!
# Functions on arrays

What the constructor of arrays offers, and what every array inherits. The methods work on
any object with a length.
-/
namespace LoadHook.Script.BuiltIn

open Machine (toObject)

variable (m : Machine) (realm : RealmRef)

/-- Sets the length of a list. -/
def setLength (r : Ref) (n : Nat) : Eval Unit := m.assign realm true (.obj r) lengthKey (.nat n)

/-- The element at an index, none if there is no such property. -/
def elementAt? (r : Ref) (i : Nat) : Eval (Option Value) := do
  let k := natKey i
  if (← Eval.read (·.find r k)).isSome then return some (← m.getRef realm r k) else return none

/-- Puts an element, or removes it if there is none. -/
def putElement (r : Ref) (i : Nat) (v : Option Value) : Eval Unit := do
  match v with
  | some v => m.assign realm true (.obj r) (natKey i) v
  | none =>
    if !(← Eval.update (·.delete r (natKey i))) then typeError realm "could not delete property"

/-- The object of a method and its length. -/
def listOf (this : Value) : Eval (Ref × Nat) := do
  let r ← toObject realm this
  return (r, ← m.lengthOf realm (.obj r))

/-- The elements of a list between two indices. -/
def slice (r : Ref) (start stop : Nat) : Eval (List (Option Value)) :=
  Eval.collect (fun i => elementAt? m realm r (start + i)) (List.range (stop - start))

/-- A new array of elements, of which some may be missing. -/
def arrayOf (vs : List (Option Value)) : Eval Value := do
  return .obj (← Eval.update fun h => h.addArray (h.realm realm).arrayProto vs)

/-- Puts elements one after another. -/
def putAll (r : Ref) (i : Nat) : List (Option Value) → Eval Unit
  | [] => pure ()
  | v :: rest => do
    putElement m realm r i v
    putAll r (i + 1) rest

/-- Replaces the elements of a list. -/
def replaceAll (r : Ref) (vs : List (Option Value)) : Eval Unit := do
  putAll m realm r 0 vs
  setLength m realm r vs.length

/-- Calls a function for the elements that are there, in order, until it gives a result. -/
def visit {α : Type} (this : Value) (args : List Value)
    (f : Value → Nat → Value → Eval (Option α)) : Eval (Option α) := do
  let (r, n) ← listOf m realm this
  let g := argument args 0
  if !(← Eval.read (·.callable g)) then typeError realm "not a function"
  Eval.loop Eval.roundLimit (fun i => do
    if i < n then
      match ← elementAt? m realm r i with
      | none => return .inl (i + 1)
      | some v =>
        let answer ← m.call realm g (argument args 1) [v, .nat i, .obj r]
        match ← f v i answer with
        | some a => return .inr (some a)
        | none => return .inl (i + 1)
    else return .inr none) 0

/-- The text of the elements with a separator between two. -/
def joinWith (separator : Key) (r : Ref) (n : Nat) : Eval Value := do
  let texts ← Eval.collect (fun i => do
    let v ← m.getRef realm r (natKey i)
    if v.isPresent then m.toText realm v else return []) (List.range n)
  return .str ((texts.intersperse separator).flatten)

/-- Folds the elements that are there with a function. -/
def foldElements (f : Value) (r : Ref) (acc : Value) : List Nat → Eval Value
  | [] => pure acc
  | i :: rest => do
    match ← elementAt? m realm r i with
    | none => foldElements f r acc rest
    | some v => foldElements f r (← m.call realm f .undefined [acc, v, .nat i, .obj r]) rest

/-- Folds a list from the first index on, which gives the start if none is given. -/
def reduceFrom (args : List Value) (r : Ref) (indices : List Nat) : Eval Value := do
  let f := argument args 0
  if !(← Eval.read (·.callable f)) then typeError realm "not a function"
  let present ← Eval.read fun h => indices.filter fun i => (h.find r (natKey i)).isSome
  match args, present with
  | _ :: start :: _, _ => foldElements m realm f r start indices
  | _, i :: rest => do foldElements m realm f r (← m.getRef realm r (natKey i)) rest
  | _, [] => typeError realm "empty array"

/-- Whether an element comes before another or may stay before it. -/
def inOrder (f a b : Value) : Eval Bool := do
  match a, b with
  | _, .undefined => return true
  | .undefined, _ => return false
  | a, b =>
    match f with
    | .undefined => return !(Machine.before (← m.toText realm b) (← m.toText realm a))
    | f => do
      let x ← m.toNumber realm (← m.call realm f .undefined [a, b])
      return !(x > 0)

/-- Puts an element in its place after all that may stay before it. -/
def insertSorted (f v : Value) : List Value → Eval (List Value)
  | [] => pure [v]
  | x :: rest => do
    if ← inOrder m realm f x v then return x :: (← insertSorted f v rest) else return v :: x :: rest

/-- The elements in order. -/
def sortValues (f : Value) (sorted : List Value) : List Value → Eval (List Value)
  | [] => pure sorted
  | v :: rest => do sortValues f (← insertSorted m realm f v sorted) rest

/-- The elements with those of nested arrays in their places, down to a depth. -/
def flatten (depth : Nat) (r : Ref) : Eval (List Value) := do
  let n ← m.lengthOf realm (.obj r)
  let vs := (← slice m realm r 0 n).filterMap id
  match depth with
  | 0 => return vs
  | d + 1 =>
    return (← Eval.collect (fun v => do
      match v with
      | .obj x => if (← Eval.read (·.object x)).isArray then flatten d x else return [v]
      | v => return [v]) vs).flatten

/-- The elements of arrays, and other values as they are. -/
def spread (v : Value) : Eval (List (Option Value)) := do
  match v with
  | .obj r =>
    if (← Eval.read (·.object r)).isArray then slice m realm r 0 (← m.lengthOf realm v)
    else return [some v]
  | v => return [some v]

/-- The index of a value among elements that are there. -/
def indexAmong (r : Ref) (v : Value) (indices : List Nat) : Eval Value := do
  let vs ← Eval.collect (fun i => do return (i, ← elementAt? m realm r i)) indices
  return .num (match vs.find? fun p => (p.2.map (Value.same v)).getD false with
    | some p => Numeric.ofInt p.1
    | none => -1)

/-- Calls a function for all elements, missing ones too, until it gives a true value. -/
def findElement (args : List Value) (r : Ref) : List Nat → Eval (Option (Nat × Value))
  | [] => pure none
  | i :: rest => do
    let v ← m.getRef realm r (natKey i)
    let answer ← m.invoke realm (argument args 0) (argument args 1) [v, .nat i, .obj r]
    if answer.truthy then return some (i, v) else findElement args r rest

/-- Whether two values are the same, NaN being the same as itself. -/
def sameOrNaN (a b : Value) : Bool := Value.same a b || Value.identical a b

/-! ## Tables -/

/-- The functions of the constructor of arrays. -/
def arrayFunctions : List BuiltIn := [
  ⟨"isArray", 1, fun _ _ _ args => do
    match argument args 0 with
    | .obj r => return .bool (← Eval.read (·.object r)).isArray
    | _ => return .bool false⟩,
  ⟨"of", 0, fun _ realm _ args => newArray realm args⟩,
  ⟨"from", 1, fun m realm _ args => do
    let source := argument args 0
    let vs ← match source with
      | .str _ => m.elements realm source
      | source => do
        let (r, n) ← listOf m realm source
        Eval.collect (fun i => m.getRef realm r (natKey i)) (List.range n)
    match argument args 1 with
    | .undefined => newArray realm vs
    | f => do
      newArray realm (← Eval.collect (fun (v, i) =>
        m.invoke realm f (argument args 2) [v, .nat i]) vs.zipIdx)⟩]

/-- The methods of arrays that change them. -/
def arrayChanges : List BuiltIn := [
  ⟨"push", 1, fun m realm this args => do
    let (r, n) ← listOf m realm this
    putAll m realm r n (args.map some)
    setLength m realm r (n + args.length)
    return .nat (n + args.length)⟩,
  ⟨"pop", 0, fun m realm this _ => do
    let (r, n) ← listOf m realm this
    match n with
    | 0 =>
      setLength m realm r 0
      return .undefined
    | k + 1 =>
      let v ← m.getRef realm r (natKey k)
      putElement m realm r k none
      setLength m realm r k
      return v⟩,
  ⟨"shift", 0, fun m realm this _ => do
    let (r, n) ← listOf m realm this
    match ← slice m realm r 0 n with
    | [] =>
      setLength m realm r 0
      return .undefined
    | v :: rest =>
      putAll m realm r 0 rest
      putElement m realm r (n - 1) none
      setLength m realm r (n - 1)
      return v.getD .undefined⟩,
  ⟨"unshift", 1, fun m realm this args => do
    let (r, n) ← listOf m realm this
    let vs ← slice m realm r 0 n
    replaceAll m realm r (args.map some ++ vs)
    return .nat (n + args.length)⟩,
  ⟨"splice", 2, fun m realm this args => do
    let (r, n) ← listOf m realm this
    let start ← indexArgument m realm args 0 n 0
    let count ← match args with
      | [] => pure 0
      | [_] => pure (n - start)
      | _ => do
        let c ← m.toInteger realm (argument args 1)
        pure (min c.toNat (n - start))
    let vs ← slice m realm r 0 n
    let removed ← arrayOf realm ((vs.drop start).take count)
    let kept := vs.take start ++ (args.drop 2).map some ++ vs.drop (start + count)
    putAll m realm r 0 kept
    Eval.each (fun i => putElement m realm r (kept.length + i) none)
      (List.range (n - kept.length))
    setLength m realm r kept.length
    return removed⟩,
  ⟨"reverse", 0, fun m realm this _ => do
    let (r, n) ← listOf m realm this
    putAll m realm r 0 (← slice m realm r 0 n).reverse
    return .obj r⟩,
  ⟨"sort", 1, fun m realm this args => do
    let f := argument args 0
    match f with
    | .undefined => pure ()
    | f => if !(← Eval.read (·.callable f)) then typeError realm "not a function"
    let (r, n) ← listOf m realm this
    let vs := (← slice m realm r 0 n).filterMap id
    let sorted ← sortValues m realm f [] vs
    putAll m realm r 0 (sorted.map some ++ List.replicate (n - sorted.length) none)
    return .obj r⟩,
  ⟨"fill", 1, fun m realm this args => do
    let (r, n) ← listOf m realm this
    let start ← indexArgument m realm args 1 n 0
    let stop ← indexArgument m realm args 2 n n
    putAll m realm r start (List.replicate (stop - start) (some (argument args 0)))
    return .obj r⟩]

/-- The methods of arrays that call a function for the elements. -/
def arrayVisits : List BuiltIn := [
  ⟨"forEach", 1, fun m realm this args => do
    let _ ← visit m realm this args fun _ _ _ => return (none : Option Unit)
    return .undefined⟩,
  ⟨"map", 1, fun m realm this args => do
    let (r, n) ← listOf m realm this
    let f := argument args 0
    if !(← Eval.read (·.callable f)) then typeError realm "not a function"
    arrayOf realm (← Eval.collect (fun i => do
      match ← elementAt? m realm r i with
      | none => return none
      | some v => return some (← m.call realm f (argument args 1) [v, .nat i, .obj r]))
      (List.range n))⟩,
  ⟨"filter", 1, fun m realm this args => do
    let (r, n) ← listOf m realm this
    let f := argument args 0
    if !(← Eval.read (·.callable f)) then typeError realm "not a function"
    let vs ← Eval.collect (fun i => do
      match ← elementAt? m realm r i with
      | none => return none
      | some v =>
        let answer ← m.call realm f (argument args 1) [v, .nat i, .obj r]
        return if answer.truthy then some v else none) (List.range n)
    newArray realm (vs.filterMap id)⟩,
  ⟨"some", 1, fun m realm this args => do
    let found ← visit m realm this args fun _ _ answer =>
      return if answer.truthy then some () else none
    return .bool found.isSome⟩,
  ⟨"every", 1, fun m realm this args => do
    let found ← visit m realm this args fun _ _ answer =>
      return if answer.truthy then none else some ()
    return .bool found.isNone⟩,
  ⟨"reduce", 1, fun m realm this args => do
    let (r, n) ← listOf m realm this
    reduceFrom m realm args r (List.range n)⟩,
  ⟨"reduceRight", 1, fun m realm this args => do
    let (r, n) ← listOf m realm this
    reduceFrom m realm args r (List.range n).reverse⟩,
  ⟨"find", 1, fun m realm this args => do
    let (r, n) ← listOf m realm this
    return ((← findElement m realm args r (List.range n)).map Prod.snd).getD .undefined⟩,
  ⟨"findIndex", 1, fun m realm this args => do
    let (r, n) ← listOf m realm this
    return ((← findElement m realm args r (List.range n)).map fun p => .nat p.1).getD (.num (-1))⟩,
  ⟨"findLast", 1, fun m realm this args => do
    let (r, n) ← listOf m realm this
    return ((← findElement m realm args r (List.range n).reverse).map Prod.snd).getD .undefined⟩,
  ⟨"findLastIndex", 1, fun m realm this args => do
    let (r, n) ← listOf m realm this
    return ((← findElement m realm args r (List.range n).reverse).map
      fun p => .nat p.1).getD (.num (-1))⟩]

/-- The other methods of arrays. -/
def arrayViews : List BuiltIn := [
  ⟨"at", 1, fun m realm this args => do
    let (r, n) ← listOf m realm this
    let i ← m.toInteger realm (argument args 0)
    let i := if i < 0 then i + n else i
    if 0 ≤ i && i < n then m.getRef realm r (natKey i.toNat) else return .undefined⟩,
  ⟨"concat", 1, fun m realm this args => do
    let r ← toObject realm this
    arrayOf realm ((← Eval.collect (spread m realm) (.obj r :: args)).flatten)⟩,
  ⟨"flat", 0, fun m realm this args => do
    let r ← toObject realm this
    let depth ← match argument args 0 with
      | .undefined => pure 1
      | v => do pure (min (← m.toInteger realm v).toNat 1000)
    newArray realm (← flatten m realm depth r)⟩,
  ⟨"flatMap", 1, fun m realm this args => do
    let (r, n) ← listOf m realm this
    let vs ← Eval.collect (fun i => do
      match ← elementAt? m realm r i with
      | none => return []
      | some v => do
        spread m realm (← m.invoke realm (argument args 0) (argument args 1)
          [v, .nat i, .obj r])) (List.range n)
    newArray realm (vs.flatten.filterMap id)⟩,
  ⟨"includes", 1, fun m realm this args => do
    let (r, n) ← listOf m realm this
    let start ← indexArgument m realm args 1 n 0
    let vs ← Eval.collect (fun i => m.getRef realm r (natKey i)) ((List.range n).drop start)
    return .bool (vs.any (sameOrNaN (argument args 0)))⟩,
  ⟨"indexOf", 1, fun m realm this args => do
    let (r, n) ← listOf m realm this
    let start ← indexArgument m realm args 1 n 0
    indexAmong m realm r (argument args 0) ((List.range n).drop start)⟩,
  ⟨"lastIndexOf", 1, fun m realm this args => do
    let (r, n) ← listOf m realm this
    let stop ← match args with
      | _ :: v :: _ => do
        let i ← m.toInteger realm v
        pure (if i < 0 then (i + n + 1).toNat else min (i.toNat + 1) n)
      | _ => pure n
    indexAmong m realm r (argument args 0) (List.range stop).reverse⟩,
  ⟨"join", 1, fun m realm this args => do
    let (r, n) ← listOf m realm this
    let separator ← match argument args 0 with
      | .undefined => pure (key ",")
      | v => m.toText realm v
    joinWith m realm separator r n⟩,
  ⟨"slice", 2, fun m realm this args => do
    let (r, n) ← listOf m realm this
    let start ← indexArgument m realm args 0 n 0
    let stop ← indexArgument m realm args 1 n n
    arrayOf realm (← slice m realm r start stop)⟩,
  ⟨"toString", 0, fun m realm this _ => do
    let r ← toObject realm this
    let join ← m.getRef realm r (key "join")
    if ← Eval.read (·.callable join) then m.call realm join (.obj r) []
    else return .text "[object Object]"⟩]

/-- The functions that every array inherits. -/
def arrayMethods : List BuiltIn := arrayChanges ++ arrayVisits ++ arrayViews

end LoadHook.Script.BuiltIn
