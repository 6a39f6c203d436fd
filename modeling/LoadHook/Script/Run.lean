import LoadHook.Dialogue
import LoadHook.Script.Heap

/-!
# Running scripts

A script that runs asks its host for modules and for lines of the log. `Run` is the dialogue
of the two, so that what a script does is told apart from what its host does. `Eval` is a
computation on the heap that runs so.
-/
namespace LoadHook.Script

/-- What a script asks of its host. -/
inductive Request where
  /-- The exports of a module, the specifier taken from a directory, for code of a realm. -/
  | require (specifier : String) (dir : Path) (realm : RealmRef)
  /-- A line of the log. -/
  | print (level : Level) (text : String)

/-- A running script: it has ended, or it asks and goes on with the answer and the heap. The
answer is a value, or a value that is thrown. -/
abbrev Run (α : Type) := Dialogue Request (Except Value Value) Heap α

/-- Why a computation has no value. -/
inductive Abrupt where
  | thrown (v : Value)
  /-- It is nested too deep. -/
  | overflow
  /-- A part of an optional chain is missing. -/
  | absent

/-- A computation on the heap. -/
def Eval (α : Type) := Heap → Run (Except Abrupt α × Heap)

namespace Eval

variable {α β : Type}

/-- A value at once. -/
def pure (a : α) : Eval α := fun h => .done (.ok a, h)

/-- One computation after another. -/
def bind (x : Eval α) (f : α → Eval β) : Eval β := fun h =>
  (x h).bind fun r =>
    match r.1 with
    | .ok a => f a r.2
    | .error e => .done (.error e, r.2)

instance : Monad Eval where
  pure := Eval.pure
  bind := Eval.bind

/-- Ends without a value. -/
def stop (e : Abrupt) : Eval α := fun h => .done (.error e, h)

/-- Throws a value. -/
def throw (v : Value) : Eval α := stop (.thrown v)

/-- The result of a computation, whether it is a value or not. -/
def outcome (x : Eval α) : Eval (Except Abrupt α) := fun h =>
  (x h).bind fun r => .done (.ok r.1, r.2)

/-- Ends with a result. -/
def ofResult : Except Abrupt α → Eval α
  | .ok a => pure a
  | .error e => stop e

/-- What the heap tells. -/
def read (f : Heap → α) : Eval α := fun h => .done (.ok (f h), h)

/-- Changes the heap. -/
def change (f : Heap → Heap) : Eval Unit := fun h => .done (.ok (), f h)

/-- Changes the heap and tells something. -/
def update (f : Heap → α × Heap) : Eval α := fun h =>
  let (a, h) := f h
  .done (.ok a, h)

/-- Asks the host. -/
def ask (request : Request) : Eval Value := fun h =>
  .ask request h fun answer h =>
    match answer with
    | .ok v => .done (.ok v, h)
    | .error v => .done (.error (.thrown v), h)

/-- Does something for each element of a list, in order. -/
def each (f : α → Eval Unit) : List α → Eval Unit
  | [] => pure ()
  | a :: rest => do
    f a
    each f rest

/-- The results for each element of a list, in order. -/
def collect (f : α → Eval β) : List α → Eval (List β)
  | [] => pure []
  | a :: rest => do
    let b ← f a
    return b :: (← collect f rest)

/-- Goes round until a step gives a result, at most `fuel` times. -/
def loop (fuel : Nat) (step : β → Eval (β ⊕ α)) (b : β) : Eval α := fun h =>
  match fuel with
  | 0 => .done (.error .overflow, h)
  | n + 1 =>
    match step b h with
    | .done (.ok (.inl b), h) => loop n step b h
    | .done (.ok (.inr a), h) => .done (.ok a, h)
    | .done (.error e, h) => .done (.error e, h)
    | .ask request h next => .ask request h fun answer h =>
      (next answer h).bind fun r =>
        match r with
        | (.ok (.inl b), h) => loop n step b h
        | (.ok (.inr a), h) => .done (.ok a, h)
        | (.error e, h) => .done (.error e, h)

/-- How often a loop may go round. -/
def roundLimit : Nat := 100000000

end Eval
end LoadHook.Script
