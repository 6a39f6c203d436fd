/-!
# Dialogues

A computation that may ask questions before it ends. `Dialogue` is the tree of what it asks
and of how it goes on with each answer; whoever holds the tree decides how to answer. A
question hands over a state, and the answer hands back one, so that both sides may
change it.
-/
namespace LoadHook

/-- A computation that has ended, or asks a question and goes on with the answer. -/
inductive Dialogue (Question Answer State α : Type) where
  | done (a : α)
  | ask (question : Question) (state : State)
      (next : Answer → State → Dialogue Question Answer State α)

namespace Dialogue

variable {Question Answer State σ α β : Type}

/-- Goes on with another computation when one has ended. -/
def bind : Dialogue Question Answer State α → (α → Dialogue Question Answer State β) →
    Dialogue Question Answer State β
  | .done a, f => f a
  | .ask q s next, f => .ask q s fun answer s => (next answer s).bind f

/-- Runs a computation to its end, all questions being answered with the help of a state of
one's own. -/
def run (answer : Question → State → σ → Answer × State × σ) :
    Dialogue Question Answer State α → σ → α × σ
  | .done a, own => (a, own)
  | .ask q s next, own =>
    let (a, s, own) := answer q s own
    (next a s).run answer own

@[simp] theorem bind_done (a : α) (f : α → Dialogue Question Answer State β) :
    (done a).bind f = f a := rfl

@[simp] theorem bind_ask (q : Question) (s : State)
    (next : Answer → State → Dialogue Question Answer State α)
    (f : α → Dialogue Question Answer State β) :
    (ask q s next).bind f = ask q s fun answer s => (next answer s).bind f := rfl

/-- Running one computation after another is running the first to its end, and then the
other. -/
theorem run_bind (answer : Question → State → σ → Answer × State × σ)
    (x : Dialogue Question Answer State α) (f : α → Dialogue Question Answer State β) (own : σ) :
    (x.bind f).run answer own = (f (x.run answer own).1).run answer (x.run answer own).2 := by
  induction x generalizing own with
  | done a => rfl
  | ask q s next ih => simp only [bind_ask, run, ih]

end Dialogue
end LoadHook
