import LoadHook.Command
import LoadHook.Shell.Run

/-!
# The program

The outer layer of the command. The arguments are the entries. The files that the run may
see are named on the standard input, one a line; files that the run writes are written
when it has ended.
-/
namespace LoadHook

/-- A world with files and environment variables, seen from a working directory. -/
def World.ofFiles (cwd : Path) (files : List (Path × ByteArray)) (env : List (String × String))
    (pid : Nat) : World :=
  let put (t : FileTree) (f : Path × ByteArray) : FileTree :=
    let written : Except Cause FileTree := do
      let t ← t.makeDirs (f.1.parent.getD "") ⟨0⟩
      t.write f.1 f.2 ⟨0⟩
    match written with
    | .ok t => t
    | .error _ => t
  let empty : FileTree := ⟨[], FileTree.placeOf cwd⟩
  let rooted := match empty.makeDirs cwd ⟨0⟩ with
    | .ok t => t
    | .error _ => empty
  { tree := files.foldl put rooted, env := env, now := ⟨1⟩, pid := pid, log := #[] }

/-- The files of a tree that another tree does not have or has with other bytes. -/
def FileTree.changedFiles (before after : FileTree) : List (Path × ByteArray) :=
  after.nodes.filterMap fun (place, node) =>
    match node with
    | .file bytes _ _ =>
      match before.node? place with
      | some (.file old _ _) => if old == bytes then none else some (FileTree.pathOf place, bytes)
      | _ => some (FileTree.pathOf place, bytes)
    | _ => none

end LoadHook

open LoadHook in
/-- Reads the files that are named, runs the command, and writes what it has written. -/
def main (arguments : List String) : IO UInt32 := do
  let cwd := toString (← IO.currentDir)
  let names ← (← IO.getStdin).lines
  let mut files := []
  for name in names do
    if !name.isEmpty then
      let path := Path.ofString cwd / Path.ofString name
      files := (path, ← IO.FS.readBinFile path.text) :: files
  let mut env := []
  for name in [Settings.compilerVariable, Settings.standard.debugVar, "PATH"] do
    if let some value ← IO.getEnv name then env := (name, value) :: env
  let pid := (← IO.monoNanosNow) % 100000
  let w := World.ofFiles (Path.ofString cwd) files.reverse env pid
  let outcome := Command.run Shell.launch arguments w
  for event in Command.shownEvents (Settings.ofEnvironment w) outcome.world do
    IO.println (Command.eventText event)
  IO.eprint outcome.report
  for (path, bytes) in w.tree.changedFiles outcome.world.tree do
    if let some dir := path.parent then IO.FS.createDirAll dir.text
    IO.FS.writeBinFile path.text bytes
  return outcome.code.toUInt32
