import LoadHook.Compile.Program
import LoadHook.Shell.Pattern
import LoadHook.Text.Blank

/-!
# Tools

The programs that shell commands call: each reads its arguments, its input and the
files, and answers with what it writes, its status, and the files after it.
-/
namespace LoadHook.Shell

/-- What a tool does. -/
structure Result where
  status : Nat
  out : ByteArray
  err : ByteArray
  tree : FileTree

/-- What a tool is given besides its arguments. -/
structure Setting where
  tree : FileTree
  now : Time
  input : ByteArray

namespace Setting

/-- Writes a text and leaves the files alone. -/
def say (s : Setting) (text : String) : Result := ⟨0, Text.encode text, .empty, s.tree⟩

/-- Ends with a status. -/
def done (s : Setting) (status : Nat) : Result := ⟨status, .empty, .empty, s.tree⟩

/-- Complains and ends with a status. -/
def complain (s : Setting) (status : Nat) (text : String) : Result :=
  ⟨status, .empty, Text.encode (text ++ "\n"), s.tree⟩

end Setting

/-- The text of a cause without its number. -/
def plainCause : Cause → String
  | .system code => Cause.systemText code
  | cause => cause.message

/-- Runs a step for each argument; the status is that of the last failure. -/
def forEach (s : Setting) (step : FileTree → String → Except String FileTree)
    (names : List String) : Result :=
  names.foldl (fun r name =>
    match step r.tree name with
    | .ok tree => { r with tree := tree }
    | .error text => { r with status := 1, err := r.err ++ Text.encode (text ++ "\n") })
    (s.done 0)

/-! ## Text tools -/

/-- The octal digits at the front of a text, at most `count`, and their value. -/
def octal (count : Nat) (value : Nat) : List Char → Nat × List Char
  | c :: rest =>
    match count with
    | 0 => (value, c :: rest)
    | n + 1 =>
      if '0' ≤ c && c ≤ '7' then octal n (value * 8 + (c.toNat - 48)) rest else (value, c :: rest)
  | [] => (value, [])

/-- The bytes of characters. -/
def bytesOf (cs : List Char) : ByteArray := Text.encode (String.ofList cs)

/-- The byte of a backslash escape with one letter. -/
def letterEscape (c : Char) : Option UInt8 :=
  match c with
  | 'n' => some 10
  | 't' => some 9
  | 'r' => some 13
  | 'a' => some 7
  | 'b' => some 8
  | 'f' => some 12
  | 'v' => some 11
  | '\\' => some 92
  | _ => none

/-- The bytes of an argument of `echo`, with whether output ends there. -/
def echoBytes (fuel : Nat) (cs : List Char) : ByteArray × Bool :=
  match fuel, cs with
  | 0, _ => (.empty, false)
  | _, [] => (.empty, false)
  | _ + 1, '\\' :: 'c' :: _ => (.empty, true)
  | n + 1, '\\' :: '0' :: rest =>
    let (v, rest) := octal 3 0 rest
    let (more, cut) := echoBytes n rest
    (ByteArray.mk #[v.toUInt8] ++ more, cut)
  | n + 1, '\\' :: c :: rest =>
    let (more, cut) := echoBytes n rest
    match letterEscape c with
    | some b => (ByteArray.mk #[b] ++ more, cut)
    | none => (bytesOf ['\\', c] ++ more, cut)
  | n + 1, c :: rest =>
    let (more, cut) := echoBytes n rest
    (bytesOf [c] ++ more, cut)

/-- Writes its arguments with a blank between two and a line end after the last. -/
def echo (s : Setting) (args : List String) : Result :=
  let (line, args) := match args with
    | "-n" :: rest => (false, rest)
    | args => (true, args)
  let text := (" ".intercalate args).toList
  let (bytes, cut) := echoBytes (text.length + 1) text
  { s.done 0 with out := if line && !cut then bytes ++ bytesOf ['\n'] else bytes }

/-- A run through the format of `printf`: its bytes, the arguments left, whether one was used. -/
def printfOnce (fuel : Nat) (used : Bool) (args : List String) (cs : List Char) :
    ByteArray × List String × Bool :=
  match fuel, cs with
  | 0, _ => (.empty, args, used)
  | _, [] => (.empty, args, used)
  | n + 1, '\\' :: c :: rest =>
    let (bytes, rest) :=
      if '0' ≤ c && c ≤ '7' then
        let (v, rest) := octal 3 0 (c :: rest)
        (ByteArray.mk #[v.toUInt8], rest)
      else match letterEscape c with
        | some b => (ByteArray.mk #[b], rest)
        | none => (bytesOf ['\\', c], rest)
    let (more, args, used) := printfOnce n used args rest
    (bytes ++ more, args, used)
  | n + 1, '%' :: '%' :: rest =>
    let (more, args, used) := printfOnce n used args rest
    (bytesOf ['%'] ++ more, args, used)
  | n + 1, '%' :: c :: rest =>
    let text := args.head?.getD (if c = 'd' then "0" else "")
    let bytes := if c = 'b' then (echoBytes (text.length + 1) text.toList).1 else Text.encode text
    let (more, args, _) := printfOnce n true (args.drop 1) rest
    (bytes ++ more, args, true)
  | n + 1, c :: rest =>
    let (more, args, used) := printfOnce n used args rest
    (bytesOf [c] ++ more, args, used)

/-- Runs through a format until no argument is left. -/
def printfAll (fuel : Nat) (format : List Char) (args : List String) : ByteArray :=
  match fuel with
  | 0 => .empty
  | n + 1 =>
    let (bytes, rest, used) := printfOnce (format.length + 1) false args format
    if rest.isEmpty || !used then bytes else bytes ++ printfAll n format rest

/-- Writes its arguments in a format. -/
def printf (s : Setting) : List String → Result
  | "--" :: format :: args =>
    { s.done 0 with out := printfAll (args.length + 1) format.toList args }
  | format :: args => { s.done 0 with out := printfAll (args.length + 1) format.toList args }
  | [] => s.complain 2 "printf: usage: printf format [arg ...]"

/-- What stands before the last separator of a name, and what after; separators at the end
do not count. -/
def splitName (name : String) : List Char × List Char :=
  let cs := (name.toList.reverse.dropWhile (· == '/')).reverse
  let base := (cs.reverse.takeWhile (· != '/')).reverse
  (cs.take (cs.length - base.length), base)

/-- Writes the last part of a name without an ending. -/
def basename (s : Setting) : List String → Result
  | name :: ending =>
    let base := (splitName name).2
    let e := (ending.head?.getD "").toList
    let cut := if e.isSuffixOf base && e != base then base.take (base.length - e.length) else base
    s.say (String.ofList (if base.isEmpty && !name.isEmpty then ['/'] else cut) ++ "\n")
  | [] => s.complain 1 "basename: missing operand"

/-- Writes a name without its last part. -/
def dirname (s : Setting) : List String → Result
  | name :: _ =>
    let front := (splitName name).1
    let cut := (front.reverse.dropWhile (· == '/')).reverse
    s.say ((if front.isEmpty then (if name.toList.head? == some '/' then "/" else ".")
      else if cut.isEmpty then "/" else String.ofList cut) ++ "\n")
  | [] => s.complain 1 "dirname: missing operand"

/-- Writes files one after the other, its input if none is named. -/
def cat (s : Setting) (args : List String) : Result :=
  if args.isEmpty then { s.done 0 with out := s.input }
  else args.foldl (fun r name =>
    if name == "-" then { r with out := r.out ++ s.input }
    else match s.tree.readBytes (Path.ofString name) with
      | .ok bytes => { r with out := r.out ++ bytes }
      | .error cause =>
        { r with
          status := 1
          err := r.err ++ Text.encode ("cat: " ++ name ++ ": " ++ plainCause cause ++ "\n") })
    (s.done 0)

/-- Writes files with a substitution made in every line. -/
def sed (s : Setting) (args : List String) : Result :=
  let args := args.filter (· != "-e")
  match args with
  | [] => s.complain 1 "sed: no script"
  | script :: names =>
    match Substitution.ofText? script.toList with
    | none => s.complain 1 "sed: -e expression #1, char 1: unknown command"
    | some sub =>
      let input := if names.isEmpty then { s.done 0 with out := s.input } else cat s names
      let text := Text.decodeLossy input.out
      let lines := (Text.lines text).map sub.apply
      let ended := text.getLast? != some '\n'
      let out := lines.foldr (fun line (acc : List Char) =>
        if acc.isEmpty && ended then line else line ++ '\n' :: acc) []
      { input with out := bytesOf out }

/-! ## File tools -/

/-- The flags and the other arguments of a tool. -/
def splitFlags (args : List String) : List Char × List String :=
  ((args.filter fun a => a.startsWith "-" && a.length > 1).flatMap fun a => a.toList.drop 1,
   args.filter fun a => !(a.startsWith "-" && a.length > 1))

/-- Makes directories. -/
def mkdir (s : Setting) (args : List String) : Result :=
  let (flags, names) := splitFlags args
  forEach s (fun t name =>
    let p := Path.ofString name
    let fail (cause : Cause) : Except String FileTree :=
      .error ("mkdir: cannot create directory '" ++ name ++ "': " ++ plainCause cause)
    if flags.contains 'p' then
      match t.makeDirs p s.now with
      | .ok t => .ok t
      | .error cause => fail cause
    else match t.makeDir p s.now with
      | .ok t => .ok t
      | .error cause => fail cause) names

/-- Removes files, and directories where asked. -/
def rm (s : Setting) (args : List String) : Result :=
  let (flags, names) := splitFlags args
  forEach s (fun t name =>
    let p := Path.ofString name
    let fail (cause : Cause) : Except String FileTree :=
      .error ("rm: cannot remove '" ++ name ++ "': " ++ plainCause cause)
    match if flags.contains 'r' || flags.contains 'R' then t.remove p else t.removeFile p with
    | .ok t => .ok t
    | .error cause =>
      if flags.contains 'f' && (cause = .notFound || cause = .notADirectory) then .ok t
      else fail cause) names

/-- The path a file is copied to: below the target if that is a directory. -/
def targetOf (t : FileTree) (source target : String) : Path :=
  let p := Path.ofString target
  if t.isDir p then p / ⟨(splitName source).2⟩ else p

/-- Copies or moves one file. -/
def transfer (tool : String) (move : Bool) (s : Setting) (target : String) (t : FileTree)
    (source : String) : Except String FileTree :=
  let p := Path.ofString source
  match t.stat p with
  | .error cause => .error (tool ++ ": cannot stat '" ++ source ++ "': " ++ plainCause cause)
  | .ok (_, .file bytes mtime mode) =>
    let q := targetOf t source target
    let moved : Except Cause FileTree := do
      let t ← t.write q bytes s.now
      let t ← t.setMode q mode
      if move then
        let t ← t.setMtime q mtime
        t.remove p
      else return t
    match moved with
    | .ok t => .ok t
    | .error cause =>
      .error (tool ++ ": cannot create regular file '" ++ target ++ "': " ++ plainCause cause)
  | .ok _ => .error (tool ++ ": -r not specified; omitting directory '" ++ source ++ "'")

/-- Copies or moves files to the last argument. -/
def copy (tool : String) (move : Bool) (s : Setting) (args : List String) : Result :=
  let names := (splitFlags args).2
  match names.getLast? with
  | some target => forEach s (transfer tool move s target) names.dropLast
  | none => s.complain 1 (tool ++ ": missing file operand")

/-- The time that the argument of `-d` names, as seconds after an at sign. -/
def timeOf? (text : String) : Option Time :=
  match text.toList with
  | '@' :: rest => (String.ofList rest).toInt?.map fun n => Time.ofSeconds n 0
  | _ => none

/-- Makes files that are not there and sets when they were changed. -/
def touch (s : Setting) (args : List String) : Result :=
  let (time, names) := match args with
    | "-d" :: text :: rest => ((timeOf? text).getD s.now, rest)
    | names => (s.now, (splitFlags names).2)
  forEach s (fun t name =>
    let p := Path.ofString name
    let made : Except Cause FileTree :=
      if (t.stat p).isOk then t.setMtime p time
      else do (← t.write p .empty s.now).setMtime p time
    match made with
    | .ok t => .ok t
    | .error cause => .error ("touch: cannot touch '" ++ name ++ "': " ++ plainCause cause)) names

/-- The permission bits of octal digits. -/
def modeOf (text : String) : Nat := (octal 4 0 text.toList).1

/-- Sets permission bits. -/
def chmod (s : Setting) : List String → Result
  | mode :: names =>
    forEach s (fun t name =>
      match t.setMode (Path.ofString name) (if mode == "+x" then 0o755 else modeOf mode) with
      | .ok t => .ok t
      | .error cause =>
        .error ("chmod: cannot access '" ++ name ++ "': " ++ plainCause cause)) names
  | [] => s.complain 1 "chmod: missing operand"

/-- Makes a symbolic link. -/
def ln (s : Setting) (args : List String) : Result :=
  match (splitFlags args).2 with
  | [target, name] =>
    forEach s (fun t name =>
      match t.link (Path.ofString name) (Path.ofString target) with
      | .ok t => .ok t
      | .error cause =>
        .error ("ln: failed to create symbolic link '" ++ name ++ "': " ++ plainCause cause)) [name]
  | _ => s.complain 1 "ln: missing file operand"

/-- Writes the names in directories. -/
def ls (s : Setting) (args : List String) : Result :=
  let names := (splitFlags args).2
  (if names.isEmpty then ["."] else names).foldl (fun r name =>
    let p := Path.ofString name
    match s.tree.stat p with
    | .ok (place, .dir _) =>
      let entries := (s.tree.nodes.filter fun n =>
        n.1.length = place.length + 1 && place.isPrefixOf n.1).map fun n =>
          String.ofList (n.1.getLast?.getD [])
      let sorted := (entries.filter fun e => !e.startsWith ".").mergeSort fun a b => decide (a ≤ b)
      { r with out := r.out ++ Text.encode (String.join (sorted.map (· ++ "\n"))) }
    | .ok _ => { r with out := r.out ++ Text.encode (name ++ "\n") }
    | .error cause =>
      { r with
        status := 2
        err := r.err ++ Text.encode
          ("ls: cannot access '" ++ name ++ "': " ++ plainCause cause ++ "\n") })
    (s.done 0)

/-- Whether a condition holds. -/
def holds (s : Setting) : List String → Bool
  | "!" :: rest => !holds s rest
  | ["-n", a] => !a.isEmpty
  | ["-z", a] => a.isEmpty
  | ["-f", a] => s.tree.isFile (Path.ofString a)
  | ["-d", a] => s.tree.isDir (Path.ofString a)
  | ["-e", a] => (s.tree.stat (Path.ofString a)).isOk
  | ["-r", a] => (s.tree.stat (Path.ofString a)).isOk
  | [a, "=", b] => a == b
  | [a, "==", b] => a == b
  | [a, "!=", b] => a != b
  | [a, "-eq", b] => a.toInt? == b.toInt?
  | [a, "-ne", b] => a.toInt? != b.toInt?
  | [a, "-lt", b] => a.toInt?.getD 0 < b.toInt?.getD 0
  | [a, "-gt", b] => a.toInt?.getD 0 > b.toInt?.getD 0
  | [a, "-le", b] => a.toInt?.getD 0 ≤ b.toInt?.getD 0
  | [a, "-ge", b] => a.toInt?.getD 0 ≥ b.toInt?.getD 0
  | [a] => !a.isEmpty
  | _ => false

/-- Tells by its status whether a condition holds. -/
def test (s : Setting) (args : List String) : Result := s.done (if holds s args then 0 else 1)

/-- The tools that are part of the shell. -/
def builtIn (name : String) : Option (Setting → List String → Result) :=
  match name with
  | "echo" => some echo
  | "printf" => some printf
  | "true" | ":" => some fun s _ => s.done 0
  | "false" => some fun s _ => s.done 1
  | "test" => some test
  | "[" => some fun s args => test s args.dropLast
  | "pwd" => some fun s _ => s.say ((FileTree.pathOf s.tree.cwd).text ++ "\n")
  | _ => none

/-- The tools that are programs of their own. -/
def external (name : String) : Option (Setting → List String → Result) :=
  match name with
  | "cat" => some cat
  | "sed" => some sed
  | "basename" => some basename
  | "dirname" => some dirname
  | "mkdir" => some mkdir
  | "rm" => some rm
  | "cp" => some (copy "cp" false)
  | "mv" => some (copy "mv" true)
  | "touch" => some touch
  | "chmod" => some chmod
  | "ln" => some ln
  | "ls" => some ls
  | "sleep" => some fun s _ => s.done 0
  | _ => none

/-- The directories that hold the tools. -/
def toolDirs : List String := ["/bin", "/usr/bin"]

/-- The tool that a path names. -/
def toolAt (p : Path) : Option (Setting → List String → Result) := do
  let dir ← p.parent
  let name ← p.fileName
  if toolDirs.contains dir.text then
    let name := String.ofList name
    (external name).or (builtIn name)
  else none

end LoadHook.Shell
