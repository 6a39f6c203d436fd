import LoadHook.Text.Blank
import LoadHook.Text.Letter
import LoadHook.Json.Cursor

/-!
# Relaxed JSON: the grammar

Configuration files may hold comments, trailing commas, single quotes, bare names and
a wider range of numbers. A text is first read as a `Term`, in which strings and
numbers stand as they were written; a text outside the grammar has none. What the
terms mean is said in `LoadHook.Json.Relaxed.Meaning`.
-/
namespace LoadHook.Json.Relaxed

/-- A part of a string or name as written. -/
inductive Piece where
  /-- A character that stands for itself. -/
  | plain (c : Char)
  /-- A backslash and a character that is neither a digit, `x` nor `u`. -/
  | escape (c : Char)
  /-- A backslash and a zero. -/
  | nul
  /-- `\x` and two hexadecimal digits. -/
  | hex (digits : List Char)
  /-- `\u` and four hexadecimal digits. -/
  | unit (digits : List Char)

/-- A document as written. -/
inductive Term where
  | null
  | bool (b : Bool)
  | number (text : List Char)
  | str (pieces : List Piece)
  | arr (items : List Term)
  | obj (members : List (List Piece × Term))
  deriving Inhabited

/-- A reading step: what was read and the text after it, none outside the grammar. -/
abbrev Step (α : Type) := List Char → Option (α × List Char)

/-- The characters that end a line. -/
def isLineEnd (c : Char) : Bool := c == '\n' || c == '\r' || c == '\u2028' || c == '\u2029'

/-- White space between tokens. -/
def isSpace (c : Char) : Bool :=
  c == '\t' || c == '\x0b' || c == '\x0c' || c == '\uFEFF' || isLineEnd c ||
    Text.isSpaceSeparator c

/-- The text after the end of a comment in stars, none if it has no end. -/
def afterComment : List Char → Option (List Char)
  | '*' :: '/' :: rest => some rest
  | _ :: rest => afterComment rest
  | [] => none

/-- The text after white space and comments. A comment without end stays where it is. -/
def skip (fuel : Nat) (cs : List Char) : List Char :=
  match fuel, cs with
  | 0, _ => cs
  | n + 1, '/' :: '/' :: rest => skip n (rest.dropWhile fun c => !isLineEnd c)
  | n + 1, '/' :: '*' :: rest =>
    match afterComment rest with
    | some rest => skip n rest
    | none => cs
  | n + 1, c :: rest => if isSpace c then skip n rest else cs
  | _ + 1, [] => []

/-- The text after all white space and comments at its front. -/
def skipSpace (cs : List Char) : List Char := skip (cs.length + 1) cs

/-- Whether a character is a hexadecimal digit. -/
def isHex (c : Char) : Bool := (Cursor.hexValue c).isSome

/-- Reads exactly `n` hexadecimal digits. -/
def hexDigits (n : Nat) : Step (List Char) := fun cs =>
  let ds := cs.take n
  if ds.length = n && ds.all isHex then some (ds, cs.drop n) else none

/-- Reads what follows a backslash in a string; a line end there vanishes. -/
def escape : Step (List Piece) := fun cs =>
  match cs with
  | [] => none
  | '\r' :: '\n' :: rest => some ([], rest)
  | '0' :: rest => some ([.nul], rest)
  | 'x' :: rest => do
    let (ds, rest) ← hexDigits 2 rest
    return ([.hex ds], rest)
  | 'u' :: rest => do
    let (ds, rest) ← hexDigits 4 rest
    return ([.unit ds], rest)
  | c :: rest =>
    if isLineEnd c then some ([], rest)
    else if c.isDigit then none
    else some ([.escape c], rest)

/-- Reads a string up to its closing quote. -/
def pieces (fuel : Nat) (quote : Char) (cs : List Char) : Option (List Piece × List Char) :=
  match fuel, cs with
  | 0, _ => none
  | _ + 1, [] => none
  | n + 1, c :: rest =>
    if c = quote then some ([], rest)
    else if c = '\\' then do
      let (here, rest) ← escape rest
      let (more, rest) ← pieces n quote rest
      return (here ++ more, rest)
    else if isLineEnd c then none
    else do
      let (more, rest) ← pieces n quote rest
      return (.plain c :: more, rest)

/-- Whether a character may begin a bare name. -/
def isNameStart (c : Char) : Bool := Text.isLetter c || c == '$' || c == '_'

/-- Whether a character may stand inside a bare name. -/
def isNamePart (c : Char) : Bool :=
  isNameStart c || Text.isMark c || Text.isDiacritic c || Text.isDecimal c || Text.isConnector c ||
    c == '\u200C' || c == '\u200D'

/-- Reads the characters of a bare name while they fit. -/
def nameParts (fuel : Nat) (cs : List Char) : List Piece × List Char :=
  match fuel, cs with
  | 0, _ => ([], cs)
  | _ + 1, [] => ([], [])
  | n + 1, '\\' :: 'u' :: rest =>
    match hexDigits 4 rest with
    | none => ([], cs)
    | some (ds, rest) =>
      let (more, rest) := nameParts n rest
      (.unit ds :: more, rest)
  | n + 1, c :: rest =>
    if isNamePart c then
      let (more, rest) := nameParts n rest
      (.plain c :: more, rest)
    else ([], cs)

/-- Reads the name of a member: a string or a bare name. -/
def name : Step (List Piece) := fun cs =>
  match cs with
  | [] => none
  | '"' :: rest => pieces (rest.length + 1) '"' rest
  | '\'' :: rest => pieces (rest.length + 1) '\'' rest
  | '\\' :: 'u' :: rest => do
    let (ds, rest) ← hexDigits 4 rest
    let (more, rest) := nameParts (rest.length + 1) rest
    return (.unit ds :: more, rest)
  | c :: rest =>
    if isNameStart c then
      let (more, rest) := nameParts (rest.length + 1) rest
      some (.plain c :: more, rest)
    else none

/-- Cuts the characters of a class off the front. -/
def span (p : Char → Bool) (cs : List Char) : List Char × List Char :=
  (cs.takeWhile p, cs.dropWhile p)

/-- The exponent at the front of a text, empty if there is none. -/
def exponentPart (cs : List Char) : List Char × List Char :=
  match cs with
  | e :: rest =>
    if e = 'e' || e = 'E' then
      let (sign, body) := match rest with
        | s :: body => if s = '+' || s = '-' then ([s], body) else ([], rest)
        | [] => ([], [])
      let (ds, rest) := span Char.isDigit body
      if ds.isEmpty then ([], cs) else (e :: sign ++ ds, rest)
    else ([], cs)
  | [] => ([], [])

/-- Reads the whole part of a decimal: a zero, or digits that do not begin with one. -/
def wholePart : Step (List Char) := fun cs =>
  match cs with
  | '0' :: rest => some (['0'], rest)
  | c :: _ => if c.isDigit then some (span Char.isDigit cs) else none
  | [] => none

/-- Reads a decimal: digits with an optional fraction and exponent. -/
def decimal : Step (List Char) := fun cs =>
  match wholePart cs with
  | some (whole, '.' :: rest) =>
    let (ds, rest) := span Char.isDigit rest
    let (e, rest) := exponentPart rest
    some (whole ++ '.' :: ds ++ e, rest)
  | some (whole, rest) =>
    let (e, rest) := exponentPart rest
    some (whole ++ e, rest)
  | none =>
    match cs with
    | '.' :: rest =>
      let (ds, rest) := span Char.isDigit rest
      if ds.isEmpty then none
      else
        let (e, rest) := exponentPart rest
        some ('.' :: ds ++ e, rest)
    | _ => none

/-- Reads a number after its sign. -/
def unsigned : Step (List Char) := fun cs =>
  match cs with
  | '0' :: x :: rest =>
    let (ds, after) := span isHex rest
    if (x = 'x' || x = 'X') && !ds.isEmpty then some ('0' :: x :: ds, after) else decimal cs
  | _ =>
    match Text.after? "Infinity".toList cs, Text.after? "NaN".toList cs with
    | some rest, _ => some (['I', 'n', 'f', 'i', 'n', 'i', 't', 'y'], rest)
    | none, some rest => some (['N', 'a', 'N'], rest)
    | none, none => decimal cs

/-- Reads a number. -/
def number : Step (List Char) := fun cs =>
  match cs with
  | s :: rest =>
    if s = '+' || s = '-' then do
      let (text, rest) ← unsigned rest
      return (s :: text, rest)
    else unsigned cs
  | [] => none

/-- Reads a word that is a value. -/
def wordTerm : Step Term := fun cs =>
  match Text.after? ['n', 'u', 'l', 'l'] cs, Text.after? ['t', 'r', 'u', 'e'] cs,
      Text.after? ['f', 'a', 'l', 's', 'e'] cs with
  | some rest, _, _ => some (.null, rest)
  | _, some rest, _ => some (.bool true, rest)
  | _, _, some rest => some (.bool false, rest)
  | none, none, none => none

mutual

/-- Reads a value; white space before it has been passed. -/
def term (fuel : Nat) (cs : List Char) : Option (Term × List Char) :=
  match fuel, cs with
  | 0, _ => none
  | _ + 1, [] => none
  | n + 1, '[' :: rest =>
    match skipSpace rest with
    | ']' :: rest => some (.arr [], rest)
    | rest => do
      let (items, rest) ← items n rest
      return (.arr items, rest)
  | n + 1, '{' :: rest =>
    match skipSpace rest with
    | '}' :: rest => some (.obj [], rest)
    | rest => do
      let (members, rest) ← members n rest
      return (.obj members, rest)
  | _ + 1, c :: rest =>
    if c = '"' || c = '\'' then do
      let (ps, rest) ← pieces (rest.length + 1) c rest
      return (.str ps, rest)
    else (wordTerm (c :: rest)).or ((number (c :: rest)).map fun r => (.number r.1, r.2))

/-- Reads the items of an array, at least one, and its end. -/
def items (fuel : Nat) (cs : List Char) : Option (List Term × List Char) :=
  match fuel with
  | 0 => none
  | n + 1 => do
    let (t, rest) ← term n cs
    match skipSpace rest with
    | ']' :: rest => return ([t], rest)
    | ',' :: rest =>
      match skipSpace rest with
      | ']' :: rest => return ([t], rest)
      | rest =>
        let (ts, rest) ← items n rest
        return (t :: ts, rest)
    | _ => none

/-- Reads the members of an object, at least one, and its end. -/
def members (fuel : Nat) (cs : List Char) : Option (List (List Piece × Term) × List Char) :=
  match fuel with
  | 0 => none
  | n + 1 => do
    let (key, rest) ← name cs
    match skipSpace rest with
    | ':' :: rest =>
      let (t, rest) ← term n (skipSpace rest)
      match skipSpace rest with
      | '}' :: rest => return ([(key, t)], rest)
      | ',' :: rest =>
        match skipSpace rest with
        | '}' :: rest => return ([(key, t)], rest)
        | rest =>
          let (ms, rest) ← members n rest
          return ((key, t) :: ms, rest)
      | _ => none
    | _ => none

end

/-- Reads a whole text as one value. -/
def read (cs : List Char) : Option Term := do
  let (t, rest) ← term (2 * cs.length + 2) (skipSpace cs)
  if (skipSpace rest).isEmpty then some t else none

end LoadHook.Json.Relaxed
