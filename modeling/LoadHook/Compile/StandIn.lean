import LoadHook.Compile.Toolchain

/-!
# Stand-in toolchains

Toolchains that do without a compiler: one copies the source, one writes files that are
given beforehand, one fails.
-/
namespace LoadHook.StandIn

/-- Writes a file with a given time of change; a file that cannot be written is left out. -/
def put (mtime : Time) (t : FileTree) (p : Path) (bytes : ByteArray) : FileTree :=
  let written : Except Cause FileTree := do
    let t ← t.makeDirs (p.parent.getD "") mtime
    (← t.write p bytes mtime).setMtime p mtime
  match written with
  | .ok t => t
  | .error _ => t

/-- Copies the source into a directory that the run numbers, beside a source map and a
declaration file; or writes the declaration file alone. -/
def copy (script : Bool) (mtime : Time) : Toolchain := fun run source config w =>
  let dir := (config.options.outDir.getD (source.parent.getD "")) / ⟨Nat.toDigits 10 run⟩
  let stem := source.fileStem.getD []
  let out (ending : String) : Path := dir / ⟨stem ++ ending.toList⟩
  let bytes := match w.tree.readBytes source with
    | .ok bytes => bytes
    | .error _ => .empty
  let files :=
    (if script then [(out ".js", bytes), (out ".js.map", Text.encode "{}")] else []) ++
      [(out ".d.ts", Text.encode "export {};")]
  (.ok (.ofPaths (files.map Prod.fst)),
    { w with tree := files.foldl (fun t f => put mtime t f.1 f.2) w.tree })

/-- Writes the given files and tells of the given artifacts. -/
def fixed (artifacts : List Path) (files : List (Path × String)) (mtime : Time) : Toolchain :=
  fun _ _ _ w =>
    (.ok (.ofPaths artifacts),
      { w with tree := files.foldl (fun t f => put mtime t f.1 (Text.encode f.2)) w.tree })

/-- Fails as if a program could not be run. -/
def fail (program : String) (cause : Cause) : Toolchain := fun _ _ _ w =>
  (.error (.toolchain program cause), w)

/-- Takes the toolchains in turn, the last one again and again. -/
def inTurn (first : Toolchain) (more : List Toolchain) : Toolchain := fun run source config w =>
  (((first :: more)[run - 1]?).getD (more.getLast?.getD first)) run source config w

end LoadHook.StandIn
