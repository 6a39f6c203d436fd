import LoadHook.Path.Map

/-!
# The output cache

Where each source was last compiled to. Sources are told apart by their components,
so that two spellings of one path share an entry.
-/
namespace LoadHook

/-- Outputs by source. -/
abbrev OutputCache := PathMap Path

namespace OutputCache

/-- Puts an output in the place of the source's last one, which is the first result. -/
def exchange (source output : Path) : List (Path × Path) → Option Path × List (Path × Path)
  | [] => (none, [(source, output)])
  | (p, old) :: rest =>
    if p.same source then (some old, (p, output) :: rest)
    else
      let (replaced, rest) := exchange source output rest
      (replaced, (p, old) :: rest)

/-- Records the output of a source. The first result is the output that it replaces. -/
def record (c : OutputCache) (source output : Path) : Option Path × OutputCache :=
  let (replaced, entries) := exchange source output c.entries
  (replaced, ⟨entries⟩)

end OutputCache
end LoadHook
