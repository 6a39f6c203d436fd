import LoadHook.Compile.Freshness
import LoadHook.Compile.OutputCache
import LoadHook.Compile.Source
import LoadHook.Settings.Basic

/-!
# Hooks

A hook compiles a source when the module is loaded, unless the output of an earlier
compilation is still fresh. It counts what it has done.
-/
namespace LoadHook

/-- How often a hook has compiled a source, found a fresh output, and failed to compile. -/
structure HookStats where
  compilations : Nat
  cacheHits : Nat
  aborted : Nat
  deriving DecidableEq

/-- A hook: its settings, its toolchain and how often that has run, and what it remembers. -/
structure Hook where
  settings : Settings
  toolchain : Toolchain
  runs : Nat
  cache : OutputCache
  stats : HookStats

namespace Hook

/-- A hook that has done nothing yet. -/
def new (settings : Settings) (toolchain : Toolchain) : Hook :=
  ⟨settings, toolchain, 0, .empty, ⟨0, 0, 0⟩⟩

/-- What a hook does with a source. -/
inductive Choice where
  /-- It runs an output. -/
  | run (output : Path)
  /-- It runs nothing: compiling has failed and was reported. -/
  | skip
  deriving DecidableEq

/-- Compiles a source and counts the outcome. -/
def compile (k : Hook) (source : Path) (w : World) : Choice × Hook × World :=
  let a := compileFile k.toolchain k.runs source k.settings.configFileName
    (k.settings.debugEnabled w) w
  let k := { k with runs := a.runs }
  match a.result with
  | .ok output =>
    (.run output, { k with stats := { k.stats with compilations := k.stats.compilations + 1 } },
      a.world)
  | .error e =>
    (.skip, { k with stats := { k.stats with aborted := k.stats.aborted + 1 } },
      a.world.report .error .hook e.message)

/-- Takes a fresh output and counts it. -/
def reuse (k : Hook) (source output : Path) (w : World) : Choice × Hook × World :=
  (.run output, { k with stats := { k.stats with cacheHits := k.stats.cacheHits + 1 } },
    w.report .info .hook ("  Skipping " ++ source.text))

/-- Chooses the output to run for a source: the remembered one while the source has not changed
since, else that of a new compilation. -/
def choose (k : Hook) (source : Path) (w : World) : Except Cause (Choice × Hook × World) :=
  match k.cache.get? source with
  | none => .ok (k.compile source w)
  | some output =>
    match w.tree.isModified source output with
    | .error cause => .error cause
    | .ok true => .ok (k.compile source w)
    | .ok false => .ok (k.reuse source output w)

/-- Remembers the output that was run for a source. -/
def remember (k : Hook) (source output : Path) : Hook :=
  { k with cache := k.cache.insert source output }

end Hook
end LoadHook
