import LoadHook.Files.Access

/-!
# The world of a run

What a run reads and changes outside of itself: the files, the environment, the
clock, and the log that it writes.
-/
namespace LoadHook

/-- How much an event matters. -/
inductive Level where
  | error | warn | info | debug
  deriving DecidableEq, Repr

/-- The part of the program that reports an event. -/
inductive Source where
  | command | config | compiler | module | hook | console
  deriving DecidableEq, Repr

/-- An entry of the log. -/
structure Event where
  level : Level
  source : Source
  text : String
  deriving DecidableEq, Repr

/-- The files, the environment, the clock, the number of the process, and the log. -/
structure World where
  tree : FileTree
  env : List (String × String)
  now : Time
  pid : Nat
  log : Array Event

namespace World

/-- Adds an entry to the log. -/
def report (w : World) (level : Level) (source : Source) (text : String) : World :=
  { w with log := w.log.push ⟨level, source, text⟩ }

/-- The value of an environment variable. -/
def envValue? (w : World) (name : String) : Option String := w.env.lookup name

/-- Sets an environment variable, or removes it. -/
def setVariable (w : World) (name : String) (value : Option String) : World :=
  let others := w.env.filter fun e => e.1 != name
  { w with env := match value with
      | some v => (name, v) :: others
      | none => others }

@[simp] theorem tree_report (w : World) (l : Level) (s : Source) (x : String) :
    (w.report l s x).tree = w.tree := rfl
@[simp] theorem env_report (w : World) (l : Level) (s : Source) (x : String) :
    (w.report l s x).env = w.env := rfl
@[simp] theorem log_report (w : World) (l : Level) (s : Source) (x : String) :
    (w.report l s x).log = w.log.push ⟨l, s, x⟩ := rfl

end World
end LoadHook
