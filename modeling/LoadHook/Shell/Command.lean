import LoadHook.Text.Blank

/-!
# Shell commands

The grammar of the small command language in which programs are written: simple
commands with assignments and redirections, lists joined by `;`, `&&`, `||` and `|`,
conditionals and loops. A text is first cut into tokens, and then read as a command.
-/
namespace LoadHook.Shell

/-- A piece of a word. -/
inductive Piece where
  /-- Characters that stand for themselves. -/
  | text (chars : List Char) (quoted : Bool)
  /-- The value of a parameter. -/
  | param (name : List Char) (quoted : Bool)
  /-- What a command writes. -/
  | output (script : List Char) (quoted : Bool)
  deriving DecidableEq

/-- A word before its parameters are filled in. -/
abbrev Word := List Piece

/-- How a redirection opens its target. -/
inductive Mode where
  | write | append | read | duplicate
  deriving DecidableEq

/-- A token. -/
inductive Token where
  | word (w : Word) (line : Nat)
  | mark (m : String)
  | redirect (descriptor : Nat) (mode : Mode)
  | newline
  deriving DecidableEq

/-- A redirection of a descriptor. -/
structure Redirect where
  descriptor : Nat
  mode : Mode
  target : Word

/-- A command. -/
inductive Command where
  | nothing
  | simple (line : Nat) (settings : List (List Char × Word)) (words : List Word)
      (redirects : List Redirect)
  | sequence (a b : Command)
  | both (a b : Command)
  | either (a b : Command)
  | pipe (a b : Command)
  | negated (a : Command)
  | cond (test yes no : Command)
  | loop (expected : Bool) (test body : Command)
  | each (name : List Char) (words : List Word) (body : Command)

/-! ## Tokens -/

/-- A character that may begin a name. -/
def isNameStart (c : Char) : Bool := c.isAlpha || c == '_'

/-- A character of a name. -/
def isNameChar (c : Char) : Bool := c.isAlphanum || c == '_'

/-- Cuts a text before the parenthesis that closes an opened one. -/
def untilClosed (fuel depth : Nat) (read : List Char) : List Char → List Char × List Char
  | [] => (read.reverse, [])
  | c :: rest =>
    match fuel with
    | 0 => (read.reverse, c :: rest)
    | n + 1 =>
      match c with
      | '\'' =>
        let body := rest.takeWhile (· != '\'')
        untilClosed n depth ('\'' :: (body.reverse ++ '\'' :: read)) (rest.drop (body.length + 1))
      | '\\' => untilClosed n depth ((rest.take 1).reverse ++ '\\' :: read) (rest.drop 1)
      | '(' => untilClosed n (depth + 1) ('(' :: read) rest
      | ')' =>
        match depth with
        | 0 => (read.reverse, rest)
        | d + 1 => untilClosed n d (')' :: read) rest
      | c => untilClosed n depth (c :: read) rest

/-- Reads what follows a dollar sign. -/
def dollar (quoted : Bool) (cs : List Char) : Piece × List Char :=
  match cs with
  | '(' :: rest =>
    let (script, rest) := untilClosed rest.length 0 [] rest
    (.output script quoted, rest)
  | '\x7b' :: rest =>
    let name := rest.takeWhile (· != '\x7d')
    (.param name quoted, rest.drop (name.length + 1))
  | c :: rest =>
    if isNameStart c then
      let name := (c :: rest).takeWhile isNameChar
      (.param name quoted, (c :: rest).drop name.length)
    else if c.isDigit || "@*#?$!-".toList.contains c then (.param [c] quoted, rest)
    else (.text ['$'] quoted, c :: rest)
  | [] => (.text ['$'] quoted, [])

/-- Reads text between double quotes up to the closing one. -/
def insideQuotes (fuel : Nat) (cs : List Char) : Word × List Char :=
  match fuel, cs with
  | 0, _ => ([], cs)
  | _, [] => ([], [])
  | n + 1, '"' :: rest => let _ := n; ([], rest)
  | n + 1, '\\' :: c :: rest =>
    let (w, rest) := insideQuotes n rest
    if c = '\n' then (w, rest)
    else if "$\x60\"\\".toList.contains c then (.text [c] true :: w, rest)
    else (.text ['\\', c] true :: w, rest)
  | n + 1, '$' :: rest =>
    let (piece, rest) := dollar true rest
    let (w, rest) := insideQuotes n rest
    (piece :: w, rest)
  | n + 1, '\x60' :: rest =>
    let script := rest.takeWhile (· != '\x60')
    let (w, rest) := insideQuotes n (rest.drop (script.length + 1))
    (.output script true :: w, rest)
  | n + 1, c :: rest =>
    let (w, rest) := insideQuotes n rest
    (.text [c] true :: w, rest)

/-- A character that ends a word. -/
def endsWord (c : Char) : Bool := " \t\n;&|<>()".toList.contains c

/-- Reads a word. -/
def word (fuel : Nat) (cs : List Char) : Word × List Char :=
  match fuel, cs with
  | 0, _ => ([], cs)
  | _, [] => ([], [])
  | n + 1, '\'' :: rest =>
    let body := rest.takeWhile (· != '\'')
    let (w, rest) := word n (rest.drop (body.length + 1))
    (.text body true :: w, rest)
  | n + 1, '"' :: rest =>
    let (inner, rest) := insideQuotes rest.length rest
    let (w, rest) := word n rest
    (.text [] true :: inner ++ w, rest)
  | n + 1, '\\' :: '\n' :: rest => word n rest
  | n + 1, '\\' :: c :: rest =>
    let (w, rest) := word n rest
    (.text [c] true :: w, rest)
  | n + 1, '$' :: rest =>
    let (piece, rest) := dollar false rest
    let (w, rest) := word n rest
    (piece :: w, rest)
  | n + 1, '\x60' :: rest =>
    let script := rest.takeWhile (· != '\x60')
    let (w, rest) := word n (rest.drop (script.length + 1))
    (.output script false :: w, rest)
  | n + 1, c :: rest =>
    if endsWord c then ([], c :: rest)
    else
      let (w, rest) := word n rest
      (.text [c] false :: w, rest)

/-- How many line ends the text before a rest holds. -/
def lineEnds (cs rest : List Char) : Nat := (cs.take (cs.length - rest.length)).count '\n'

/-- Cuts a text into tokens. -/
def tokens (fuel line : Nat) (cs : List Char) : List Token :=
  match fuel, cs with
  | 0, _ => []
  | _, [] => []
  | n + 1, ' ' :: rest => tokens n line rest
  | n + 1, '\t' :: rest => tokens n line rest
  | n + 1, '\\' :: '\n' :: rest => tokens n (line + 1) rest
  | n + 1, '\n' :: rest => .newline :: tokens n (line + 1) rest
  | n + 1, '#' :: rest => tokens n line (rest.dropWhile (· != '\n'))
  | n + 1, ';' :: ';' :: rest => .mark ";;" :: tokens n line rest
  | n + 1, ';' :: rest => .mark ";" :: tokens n line rest
  | n + 1, '&' :: '&' :: rest => .mark "&&" :: tokens n line rest
  | n + 1, '|' :: '|' :: rest => .mark "||" :: tokens n line rest
  | n + 1, '|' :: rest => .mark "|" :: tokens n line rest
  | n + 1, '&' :: rest => .mark "&" :: tokens n line rest
  | n + 1, '(' :: rest => .mark "(" :: tokens n line rest
  | n + 1, ')' :: rest => .mark ")" :: tokens n line rest
  | n + 1, '>' :: rest => redirectTokens n line 1 ('>' :: rest)
  | n + 1, '<' :: rest => redirectTokens n line 0 ('<' :: rest)
  | n + 1, '1' :: '>' :: rest => redirectTokens n line 1 ('>' :: rest)
  | n + 1, '2' :: '>' :: rest => redirectTokens n line 2 ('>' :: rest)
  | n + 1, c :: rest =>
    let (w, more) := word (rest.length + 1) (c :: rest)
    .word w line :: tokens n (line + lineEnds (c :: rest) more) more
where
  /-- The token of a redirection and those after it. -/
  redirectTokens (fuel line descriptor : Nat) (cs : List Char) : List Token :=
    match fuel, cs with
    | 0, _ => []
    | n + 1, '>' :: '>' :: rest => .redirect descriptor .append :: tokens n line rest
    | n + 1, '>' :: '&' :: rest => .redirect descriptor .duplicate :: tokens n line rest
    | n + 1, '>' :: rest => .redirect descriptor .write :: tokens n line rest
    | n + 1, '<' :: rest => .redirect descriptor .read :: tokens n line rest
    | _, _ => []

/-! ## Commands -/

/-- The unquoted characters of a word, if it is nothing but those. -/
def plainText : Word → Option (List Char)
  | [] => some []
  | .text cs false :: rest => (plainText rest).map (cs ++ ·)
  | _ => none

/-- Splits `name=value` at the first equals sign of its unquoted front. -/
def setting? : Word → Option (List Char × Word)
  | .text [c] false :: rest => if isNameStart c then go [c] rest else none
  | _ => none
where
  /-- `setting?` after the characters `read`, the last one first. -/
  go (read : List Char) : Word → Option (List Char × Word)
    | .text ['='] false :: rest => some (read.reverse, rest)
    | .text [c] false :: rest => if isNameChar c then go (c :: read) rest else none
    | _ => none

/-- Words that end a list of commands. -/
def closers : List (List Char) :=
  ["then", "else", "elif", "fi", "do", "done", "\x7d"].map String.toList

/-- The word that comes next, if it is a plain one. -/
def nextPlain : List Token → Option (List Char)
  | .word w _ :: _ => plainText w
  | _ => none

/-- Whether a plain word comes next. -/
def atWord (s : String) (ts : List Token) : Bool := nextPlain ts == some s.toList

/-- Passes line ends and semicolons. -/
def skipEnds : List Token → List Token
  | .newline :: rest => skipEnds rest
  | .mark ";" :: rest => skipEnds rest
  | .mark "&" :: rest => skipEnds rest
  | ts => ts

/-- Passes line ends. -/
def skipLines : List Token → List Token
  | .newline :: rest => skipLines rest
  | ts => ts

/-- Reads the rest of a simple command. -/
def simple (line : Nat) (settings : List (List Char × Word)) (words : List Word)
    (redirects : List Redirect) : List Token → Command × List Token
  | .redirect d mode :: .word w _ :: rest =>
    simple line settings words (redirects ++ [⟨d, mode, w⟩]) rest
  | .word w _ :: rest =>
    match words, setting? w with
    | [], some s => simple line (settings ++ [s]) words redirects rest
    | _, _ => simple line settings (words ++ [w]) redirects rest
  | ts => (.simple line settings words redirects, ts)

/-- The words up to the end of a line. -/
def wordsUntilEnd : List Token → List Word × List Token
  | .word w _ :: rest =>
    let (ws, rest) := wordsUntilEnd rest
    (w :: ws, rest)
  | ts => ([], ts)

mutual

/-- Reads commands up to a closing word. -/
def list (fuel : Nat) (ts : List Token) : Command × List Token :=
  match fuel with
  | 0 => (.nothing, ts)
  | n + 1 =>
    let ts := skipEnds ts
    match ts with
    | [] => (.nothing, [])
    | .mark ")" :: _ => (.nothing, ts)
    | _ =>
      if ((nextPlain ts).map closers.contains).getD false then (.nothing, ts)
      else
        let (a, rest) := chain n ts
        if rest.length = ts.length then (.nothing, [])
        else
          let (b, rest) := list n rest
          (.sequence a b, rest)

/-- Reads commands joined by `&&` and `||`. -/
def chain (fuel : Nat) (ts : List Token) : Command × List Token :=
  match fuel with
  | 0 => (.nothing, ts)
  | n + 1 =>
    let (a, ts) := pipeline n ts
    chainFrom n a ts

/-- Reads what is joined to a command by `&&` and `||`. -/
def chainFrom (fuel : Nat) (a : Command) (ts : List Token) : Command × List Token :=
  match fuel, ts with
  | n + 1, .mark "&&" :: rest =>
    let (b, rest) := pipeline n (skipLines rest)
    chainFrom n (.both a b) rest
  | n + 1, .mark "||" :: rest =>
    let (b, rest) := pipeline n (skipLines rest)
    chainFrom n (.either a b) rest
  | _, ts => (a, ts)

/-- Reads commands joined by `|`. -/
def pipeline (fuel : Nat) (ts : List Token) : Command × List Token :=
  match fuel with
  | 0 => (.nothing, ts)
  | n + 1 =>
    if atWord "!" ts then
      let (a, rest) := pipeline n (ts.drop 1)
      (.negated a, rest)
    else
      let (a, ts) := command n ts
      match ts with
      | .mark "|" :: rest =>
        let (b, rest) := pipeline n (skipLines rest)
        (.pipe a b, rest)
      | _ => (a, ts)

/-- Reads one command. -/
def command (fuel : Nat) (ts : List Token) : Command × List Token :=
  match fuel with
  | 0 => (.nothing, ts)
  | n + 1 =>
    if atWord "if" ts then conditional n (ts.drop 1)
    else if atWord "while" ts then loop n true (ts.drop 1)
    else if atWord "until" ts then loop n false (ts.drop 1)
    else if atWord "\x7b" ts then
      let (body, rest) := list n (ts.drop 1)
      (body, rest.drop 1)
    else
      match ts with
      | .mark "(" :: rest =>
        let (body, rest) := list n rest
        (body, rest.drop 1)
      | .word w line :: .word v vline :: rest =>
        if plainText w = some "for".toList then
          let rest := if atWord "in" rest then rest.drop 1 else rest
          let (words, rest) := wordsUntilEnd rest
          let (body, rest) := list n ((skipEnds rest).drop 1)
          (.each ((plainText v).getD []) words body, rest.drop 1)
        else simple line [] [] [] (.word w line :: .word v vline :: rest)
      | .word _ line :: _ => simple line [] [] [] ts
      | _ => simple 0 [] [] [] ts

/-- Reads a conditional after its first word. -/
def conditional (fuel : Nat) (ts : List Token) : Command × List Token :=
  match fuel with
  | 0 => (.nothing, ts)
  | n + 1 =>
    let (test, ts) := list n ts
    let (yes, ts) := list n (ts.drop 1)
    if atWord "elif" ts then
      let (no, ts) := conditional n (ts.drop 1)
      (.cond test yes no, ts)
    else if atWord "else" ts then
      let (no, ts) := list n (ts.drop 1)
      (.cond test yes no, ts.drop 1)
    else (.cond test yes .nothing, ts.drop 1)

/-- Reads a loop after its first word. -/
def loop (fuel : Nat) (expected : Bool) (ts : List Token) : Command × List Token :=
  match fuel with
  | 0 => (.nothing, ts)
  | n + 1 =>
    let (test, ts) := list n ts
    let (body, ts) := list n (ts.drop 1)
    (.loop expected test body, ts.drop 1)

end

/-- Reads a script. -/
def Command.ofText (cs : List Char) : Command :=
  let ts := tokens (2 * cs.length + 1) 1 cs
  (list (6 * ts.length + 6) ts).1

end LoadHook.Shell
