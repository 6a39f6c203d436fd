import LoadHook.Module.Sandbox

/-!
# Loading through a hook

The handler of a hook runs the output that the hook chooses. The output is remembered
only when it has run to its end; if compiling has failed the module stays as it is.
-/
namespace LoadHook.Hook

/-- A hook by its number. -/
def at? (w : Workspace) (number : Nat) : Option Hook := w.hooks[number]?

/-- Puts a hook in its place. -/
def put (w : Workspace) (number : Nat) (k : Hook) : Workspace :=
  { w with hooks := w.hooks.modify number fun _ => k }

/-- Lets a hook choose the output for a source. -/
def chooseFor (number : Nat) (source : Path) : Load Choice := fun w =>
  match at? w number with
  | none => .done (.ok .skip, w)
  | some k =>
    match k.choose source w.world with
    | .error cause => .done (.error (.error (.uncheckable source cause)), w)
    | .ok (choice, k, world) => .done (.ok choice, put { w with world := world } number k)

/-- Lets a hook remember the output of a source. -/
def rememberFor (number : Nat) (source output : Path) : Load Unit :=
  Load.change fun w =>
    match at? w number with
    | none => w
    | some k => put w number (k.remember source output)

/-- Loads modules through a hook. -/
def handler (number : Nat) : Handler := fun realm module => do
  let source ← Load.filename realm module
  match ← chooseFor number source with
  | .skip => return ()
  | .run output =>
    Load.report .info .hook ("  Running " ++ output.text)
    let _ ← Sandbox.run realm output module
    rememberFor number source output

end LoadHook.Hook
