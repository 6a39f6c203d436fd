import LoadHook.Compile.Toolchain

/-!
# Compiling a source

The configuration of the source is found and read, the toolchain runs once, and the
script compiled from the source is selected. The debug toggle adds lines to the log and
changes nothing else.
-/
namespace LoadHook

/-- What is reported of an emission when the debug toggle is on. -/
def announceEmission (w : World) (e : Emission) : World :=
  let w := e.artifacts.foldl (fun w a =>
    w.report .info .compiler ("  Writing " ++ a.path.text ++ " (" ++ a.kind.name ++ ")")) w
  w.report .info .compiler (match e.lastScript with
    | some last => "Last script file written: " ++ last.text
    | none => "No script file written")

/-- What is reported of a configuration when the debug toggle is on. -/
def announceOptions (w : World) (o : Options) : World :=
  w.report .info .compiler ("  resolved options: " ++ o.text)

/-- The script that an emission gives for a source. -/
def selectScript (e : Emission) (source : Path) : Except CompileError Path :=
  match e.scriptFor source with
  | some script => .ok script
  | none => .error (.noScriptEmitted source)

/-- What an attempt to compile a source leaves behind: its result, how often the toolchain has
run by then, and the world. -/
structure Attempt where
  result : Except CompileError Path
  runs : Nat
  world : World

/-- Compiles a source and selects its script; the toolchain has run `runs` times before. -/
def compileFile (toolchain : Toolchain) (runs : Nat) (source : Path) (configName : String)
    (debug : Bool) (w : World) : Attempt :=
  match Config.resolve w source configName debug with
  | (.error e, w) => ⟨.error e, runs, w⟩
  | (.ok config, w) =>
    let w := if debug then announceOptions w config.options else w
    let w := w.report .info .compiler ("  Compiling " ++ source.text)
    match toolchain (runs + 1) source config w with
    | (.error e, w) => ⟨.error e, runs + 1, w⟩
    | (.ok emission, w) =>
      ⟨selectScript emission source, runs + 1, if debug then announceEmission w emission else w⟩

end LoadHook
