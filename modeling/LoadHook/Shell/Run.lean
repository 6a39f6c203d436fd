import LoadHook.Shell.Command
import LoadHook.Shell.Tool

/-!
# Running shell scripts

`Shell.launch` runs a program of the file tree: a tool, or a script that names the
shell in its first line. Commands are run with an amount of fuel that bounds nesting
and the rounds of loops.
-/
namespace LoadHook.Shell

/-- What a script knows and has written. -/
structure State where
  tree : FileTree
  now : Time
  pid : Nat
  name : String
  args : List String
  vars : List (String × String)
  status : Nat
  input : ByteArray
  out : ByteArray
  err : ByteArray

/-- How running a command ends. -/
inductive Flow where
  | next (s : State)
  | exit (s : State) (code : Nat)
  | killed (s : State) (signal : Nat)

namespace State

/-- Sets a variable. -/
def set (s : State) (name value : String) : State :=
  { s with vars := (name, value) :: s.vars.filter fun v => v.1 != name }

/-- Writes a complaint that names the script and the line. -/
def complain (s : State) (line status : Nat) (text : String) : State :=
  { s with
    status := status
    err := s.err ++ Text.encode (s.name ++ ": " ++ Nat.repr line ++ ": " ++ text ++ "\n") }

/-- What tools are given. -/
def setting (s : State) : Setting := ⟨s.tree, s.now, s.input⟩

/-- The value of a variable or of a numbered or special parameter. -/
def value (s : State) (name : String) : Option String :=
  match name with
  | "#" => some (Nat.repr s.args.length)
  | "?" => some (Nat.repr s.status)
  | "$" => some (Nat.repr s.pid)
  | "0" => some s.name
  | "@" | "*" => some (" ".intercalate s.args)
  | "PWD" => some (FileTree.pathOf s.tree.cwd).text
  | name =>
    match name.toNat? with
    | some n => s.args[n - 1]?
    | none => s.vars.lookup name

/-- The value of a parameter with what braces may say about it: a default after `:-`, an
ending to drop after `%`, everything up to the last separator to drop after `##*/`. -/
def parameter (s : State) (cs : List Char) : String :=
  let name := cs.takeWhile fun c => isNameChar c || "@*#?$".toList.contains c
  let name := if name.length > 1 && name.contains '#' then name.takeWhile (· != '#') else name
  let value := s.value (String.ofList name)
  match cs.drop name.length with
  | ':' :: '-' :: rest => if (value.getD "").isEmpty then String.ofList rest else value.getD ""
  | '%' :: rest =>
    let v := (value.getD "").toList
    String.ofList (if rest.isSuffixOf v then v.take (v.length - rest.length) else v)
  | ['#', '#', '*', '/'] => String.ofList (splitName (value.getD "")).2
  | _ => value.getD ""

end State

/-! ## Words -/

/-- A filled-in piece of a word: characters that stay together, a value that blanks cut
into fields, or the arguments as fields of their own. -/
inductive Fragment where
  | solid (cs : List Char)
  | loose (cs : List Char)
  | fields (items : List (List Char))

/-- The text of a fragment that is not cut. -/
def Fragment.joined : Fragment → List Char
  | .solid cs => cs
  | .loose cs => cs
  | .fields items => (" ".toList).intercalate items

/-- Cuts a value at its blanks: the field that goes on from the text before, the whole
fields, and the field begun at its end. -/
def cutLoose (current : Option (List Char)) : List Char → List (List Char) × Option (List Char)
  | [] => ([], current)
  | c :: rest =>
    if c == ' ' || c == '\t' || c == '\n' then
      let (fields, last) := cutLoose none rest
      (current.toList ++ fields, last)
    else cutLoose (some (current.getD [] ++ [c])) rest

/-- The fields of a word. -/
def fieldsOf (current : Option (List Char)) : List Fragment → List (List Char)
  | [] => current.toList
  | .solid cs :: rest => fieldsOf (some (current.getD [] ++ cs)) rest
  | .loose cs :: rest =>
    let (fields, last) := cutLoose current cs
    fields ++ fieldsOf last rest
  | .fields [] :: rest => fieldsOf current rest
  | .fields (a :: more) :: rest =>
    let all := (current.getD [] ++ a) :: more
    all.dropLast ++ fieldsOf all.getLast? rest

/-! ## Programs -/

/-- A program that can be run. -/
inductive Executable where
  | tool (run : Setting → List String → Result)
  | script (path : Path) (text : List Char)

/-- The interpreters that read this language. -/
def interpreters : List String :=
  ["/bin/sh", "/bin/bash", "/bin/dash", "/usr/bin/sh", "/usr/bin/bash", "/usr/bin/dash",
   "/usr/bin/env sh", "/usr/bin/env bash"]

/-- The program at a path. -/
def executableAt (t : FileTree) (p : Path) : Except Cause Executable :=
  match toolAt p with
  | some run => .ok (.tool run)
  | none => do
    match ← t.stat p with
    | (_, .file bytes _ mode) =>
      if mode &&& 0o111 = 0 then throw .denied
      else
        let text := Text.decodeLossy bytes
        match text with
        | '#' :: '!' :: rest =>
          let line := String.ofList (Text.trim (rest.takeWhile (· != '\n')))
          if interpreters.any fun i => line == i || line.startsWith (i ++ " -") then
            return .script p text
          else throw .notFound
        | _ => throw .badFormat
    | _ => throw .denied

/-- The first program of a name in a list of directories. -/
def searchDirs (t : FileTree) (name : Path) (refused : Option Cause) :
    List String → Except Cause Executable
  | [] => .error (refused.getD .notFound)
  | dir :: rest =>
    match executableAt t (Path.ofString (if dir.isEmpty then "." else dir) / name) with
    | .ok e => .ok e
    | .error cause =>
      if cause = .notFound || cause = .notADirectory then searchDirs t name refused rest
      else if cause = .denied then searchDirs t name (some .denied) rest
      else .error cause

/-- The program that a name or path means, a name without separator being looked up in the
directories that `PATH` lists. -/
def findProgram (t : FileTree) (vars : List (String × String)) (p : Path) :
    Except Cause Executable :=
  if p.chars.isEmpty then .error .notFound
  else if p.chars.contains '/' then executableAt t p
  else
    let dirs := (vars.lookup "PATH").getD "/bin:/usr/bin"
    searchDirs t p none (dirs.splitOn ":")

/-! ## Redirections -/

/-- Where output goes. -/
inductive Sink where
  | standard
  | complaints
  | nowhere
  | file (p : Path)

/-- Adds bytes to a sink. -/
def deliver (s : State) (sink : Sink) (bytes : ByteArray) : State :=
  match sink with
  | .standard => { s with out := s.out ++ bytes }
  | .complaints => { s with err := s.err ++ bytes }
  | .nowhere => s
  | .file p =>
    match s.tree.readBytes p with
    | .ok old =>
      match s.tree.write p (old ++ bytes) s.now with
      | .ok t => { s with tree := t }
      | .error _ => s
    | .error _ => s

/-- Opens a redirection's target for writing. -/
def openTarget (s : State) (p : Path) (append : Bool) : Except Cause State := do
  let old := match s.tree.readBytes p with
    | .ok bytes => if append then bytes else ByteArray.empty
    | .error _ => ByteArray.empty
  return { s with tree := ← s.tree.write p old s.now }

/-- The number of a signal by its number or name. -/
def signalOf? (text : String) : Option Nat :=
  match text.toNat? with
  | some n => some n
  | none =>
    (Ending.signalNames.findIdx? fun n => n == text || n == "SIG" ++ text).map (· + 1)

/-- The signal that the arguments of `kill` name; the usual one ends a process kindly. -/
def signalIn : List String → Nat
  | "-s" :: name :: _ => (signalOf? name).getD 15
  | arg :: _ =>
    match arg.toList with
    | '-' :: name => (signalOf? (String.ofList name)).getD 15
    | _ => 15
  | [] => 15

/-! ## Commands -/

mutual

/-- Fills in the pieces of a word. -/
def fill (fuel : Nat) (s : State) : Word → State × List Fragment
  | [] => (s, [])
  | piece :: rest =>
    match fuel with
    | 0 => (s, [])
    | n + 1 =>
      let (s, f) : State × Fragment := match piece with
        | .text cs _ => (s, .solid cs)
        | .param ['@'] true => (s, .fields (s.args.map String.toList))
        | .param name quoted =>
          let v := (s.parameter name).toList
          (s, if quoted then .solid v else .loose v)
        | .output script quoted =>
          let (s, bytes) := capture n s (Command.ofText script)
          let text := ((Text.decodeLossy bytes).reverse.dropWhile (· == '\n')).reverse
          (s, if quoted then .solid text else .loose text)
      let (s, more) := fill n s rest
      (s, f :: more)

/-- The fields of several words. -/
def fillAll (fuel : Nat) (s : State) : List Word → State × List String
  | [] => (s, [])
  | w :: rest =>
    match fuel with
    | 0 => (s, [])
    | n + 1 =>
      let (s, fragments) := fill n s w
      let (s, more) := fillAll n s rest
      (s, (fieldsOf none fragments).map String.ofList ++ more)

/-- Makes assignments. -/
def assign (fuel : Nat) (s : State) : List (List Char × Word) → State
  | [] => s
  | (name, w) :: rest =>
    match fuel with
    | 0 => s
    | n + 1 =>
      let (s, fragments) := fill n s w
      assign n (s.set (String.ofList name) (String.ofList (fragments.flatMap Fragment.joined))) rest

/-- Runs a command apart, and gives what it writes. -/
def capture (fuel : Nat) (s : State) (c : Command) : State × ByteArray :=
  match fuel with
  | 0 => (s, .empty)
  | n + 1 =>
    let back (t : State) (status : Nat) : State × ByteArray :=
      ({ s with tree := { t.tree with cwd := s.tree.cwd }, status := status, err := t.err }, t.out)
    match eval n { s with out := .empty } c with
    | .next t => back t t.status
    | .exit t code => back t code
    | .killed t signal => back t (128 + signal)

/-- Opens redirections one after the other; none when one fails. -/
def redirect (fuel : Nat) (s : State) (line : Nat) (out err : Sink) :
    List Redirect → State × Option (Sink × Sink)
  | [] => (s, some (out, err))
  | r :: rest =>
    match fuel with
    | 0 => (s, none)
    | n + 1 =>
      let (s, fragments) := fill n s r.target
      let target := String.ofList (fragments.flatMap Fragment.joined)
      let go (s : State) (sink : Sink) : State × Option (Sink × Sink) :=
        if r.descriptor = 2 then redirect n s line out sink rest
        else redirect n s line sink err rest
      match r.mode with
      | .duplicate => go s (if target == "2" then err else if target == "1" then out else .nowhere)
      | .read =>
        if target == "/dev/null" then redirect n { s with input := .empty } line out err rest
        else match s.tree.readBytes (Path.ofString target) with
          | .ok bytes => redirect n { s with input := bytes } line out err rest
          | .error _ =>
            (s.complain line 2 ("cannot open " ++ target ++ ": No such file"), none)
      | .write | .append =>
        if target == "/dev/null" then go s .nowhere
        else match openTarget s (Path.ofString target) (r.mode = .append) with
          | .ok s => go s (.file (Path.ofString target))
          | .error cause =>
            let why := if cause = .notFound then "Directory nonexistent" else plainCause cause
            (s.complain line 2 ("cannot create " ++ target ++ ": " ++ why), none)

/-- Runs a program with arguments. -/
def call (fuel : Nat) (s : State) (line : Nat) (out err : Sink) (name : String)
    (args : List String) : Flow :=
  match fuel with
  | 0 => .next { s with status := 127 }
  | n + 1 =>
    let finish (r : Result) : Flow :=
      let s := { s with tree := r.tree, status := r.status }
      .next (deliver (deliver s out r.out) err r.err)
    match name with
    | "exit" =>
      .exit s ((args.head?.bind String.toNat?).map (· % 256) |>.getD s.status)
    | "kill" =>
      if args.getLast? == some (Nat.repr s.pid) then .killed s (signalIn args)
      else .next { s with status := 1 }
    | "cd" =>
      match s.tree.stat (Path.ofString (args.head?.getD "/")) with
      | .ok (place, .dir _) => .next { s with tree := { s.tree with cwd := place }, status := 0 }
      | _ => .next (s.complain line 2 ("cd: can't cd to " ++ args.head?.getD "/"))
    | "shift" => .next { s with args := s.args.drop 1, status := 0 }
    | "set" | "export" | "unset" | "umask" => .next { s with status := 0 }
    | "exec" =>
      match args with
      | [] => .next s
      | program :: rest =>
        match call n s line out err program rest with
        | .next t => .exit t t.status
        | flow => flow
    | _ =>
      match builtIn name with
      | some run => finish (run s.setting args)
      | none =>
        match findProgram s.tree s.vars (Path.ofString name) with
        | .ok (.tool run) => finish (run s.setting args)
        | .ok (.script path text) =>
          let inner := { s with name := path.text, args := args, out := .empty, err := .empty }
          let back (t : State) (status : Nat) : Flow :=
            finish ⟨status, t.out, t.err, { t.tree with cwd := s.tree.cwd }⟩
          match eval n inner (Command.ofText text) with
          | .next t => back t t.status
          | .exit t code => back t code
          | .killed t signal => back t (128 + signal)
        | .error cause =>
          .next (if cause = .notFound then s.complain line 127 (name ++ ": not found")
            else s.complain line 126 (name ++ ": " ++ plainCause cause))

/-- Runs a command. -/
def eval (fuel : Nat) (s : State) (c : Command) : Flow :=
  match fuel with
  | 0 => .next s
  | n + 1 =>
    match c with
    | .nothing => .next s
    | .simple line settings words redirects =>
      let (s, fields) := fillAll n s words
      match fields with
      | [] =>
        let s := if words.isEmpty then { s with status := 0 } else s
        .next (redirect n (assign n s settings) line .standard .complaints redirects).1
      | name :: args =>
        let kept := s.vars
        let s := assign n s settings
        match redirect n s line .standard .complaints redirects with
        | (s, none) => .next s
        | (s', some (out, err)) =>
          match call n s' line out err name args with
          | .next t =>
            .next { t with vars := if settings.isEmpty then t.vars else kept, input := s.input }
          | flow => flow
    | .sequence a b =>
      match eval n s a with
      | .next s => eval n s b
      | flow => flow
    | .both a b =>
      match eval n s a with
      | .next s => if s.status = 0 then eval n s b else .next s
      | flow => flow
    | .either a b =>
      match eval n s a with
      | .next s => if s.status = 0 then .next s else eval n s b
      | flow => flow
    | .pipe a b =>
      let (t, bytes) := capture n s a
      match eval n { t with out := s.out, input := bytes } b with
      | .next t => .next { t with input := s.input }
      | flow => flow
    | .negated a =>
      match eval n s a with
      | .next s => .next { s with status := if s.status = 0 then 1 else 0 }
      | flow => flow
    | .cond test yes no =>
      match eval n s test with
      | .next s => if s.status = 0 then eval n s yes else eval n { s with status := 0 } no
      | flow => flow
    | .loop expected test body =>
      match eval n s test with
      | .next s =>
        if (s.status = 0) = expected then
          match eval n s body with
          | .next s => eval n s (.loop expected test body)
          | flow => flow
        else .next { s with status := 0 }
      | flow => flow
    | .each name words body =>
      let (s, fields) := fillAll n s words
      rounds n s name fields body

/-- Runs a command once for each value of a variable. -/
def rounds (fuel : Nat) (s : State) (name : List Char) (values : List String) (body : Command) :
    Flow :=
  match fuel, values with
  | 0, _ => .next s
  | _, [] => .next s
  | n + 1, v :: rest =>
    match eval n (s.set (String.ofList name) v) body with
    | .next s => rounds n s name rest body
    | flow => flow

end

/-- How deep commands nest and how often loops go round. -/
def fuelLimit : Nat := 100000

/-- Runs a program in a directory. -/
def launch : Runner := fun w call =>
  if call.program.chars.contains '\x00' then (.error .nulInProgram, w.tree)
  else match w.tree.stat call.dir with
  | .error cause => (.error cause, w.tree)
  | .ok (place, .dir _) =>
    let inside := { w.tree with cwd := place }
    match findProgram inside w.env call.program with
    | .error cause => (.error cause, w.tree)
    | .ok (.tool run) =>
      let r := run ⟨inside, w.now, .empty⟩ call.arguments
      (.ok ⟨r.out, r.err, .exited r.status⟩, { r.tree with cwd := w.tree.cwd })
    | .ok (.script path text) =>
      let s : State :=
        { tree := inside, now := w.now, pid := w.pid + 1, name := path.text
          args := call.arguments, vars := w.env, status := 0
          input := .empty, out := .empty, err := .empty }
      let back (t : State) (ending : Ending) : Except Cause Finished × FileTree :=
        (.ok ⟨t.out, t.err, ending⟩, { t.tree with cwd := w.tree.cwd })
      match eval fuelLimit s (Command.ofText text) with
      | .next t => back t (.exited t.status)
      | .exit t code => back t (.exited code)
      | .killed t signal => back t (.killed signal)
  | .ok _ => (.error .notADirectory, w.tree)

end LoadHook.Shell
