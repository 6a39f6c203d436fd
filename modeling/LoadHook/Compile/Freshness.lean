import LoadHook.Files.Access

/-!
# Freshness

An output is stale when its source was changed strictly later than it, or when it
cannot be looked at. A source that cannot be looked at is a failure.
-/
namespace LoadHook

/-- Whether `source` was changed since `output` was written. -/
def FileTree.isModified (t : FileTree) (source output : Path) : Except Cause Bool := do
  let changed ← t.mtime source
  match t.mtime output with
  | .ok written => return changed.later written
  | .error _ => return true

end LoadHook
