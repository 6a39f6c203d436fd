import LoadHook.Decimal.Rounding
import LoadHook.Script.Tree
import LoadHook.Text.Letter

/-!
# Script tokens

`Token.next` passes white space and comments and reads one token; it tells whether a
line ended before it. Templates are read piece by piece, because only the grammar knows
where an inserted expression ends.
-/
namespace LoadHook.Script

open Text (Utf16)

/-- A token. -/
inductive Token where
  | name (n : Key) (escaped : Bool)
  | num (x : Float) (legacy : Bool)
  | str (s : Utf16) (legacy : Bool)
  | mark (m : String)
  | ending

namespace Token

/-- Whether a token is a given mark. -/
def isMark (m : String) : Token → Bool
  | .mark n => n == m
  | _ => false

/-- Whether a token is a given word, written without escapes. -/
def isWord (w : String) : Token → Bool
  | .name n false => n == key w
  | _ => false

/-- White space within a line. -/
def isSpace (c : Char) : Bool :=
  c == '\t' || c == '\x0b' || c == '\x0c' || c == ' ' || c == '\xa0' || c == '\uFEFF' ||
    Text.isSpaceSeparator c

/-- The end of a line. -/
def isLineEnd (c : Char) : Bool :=
  c == '\n' || c == '\r' || c == '\u2028' || c == '\u2029'

/-- A character that may begin a name. -/
def beginsName (c : Char) : Bool := c == '$' || c == '_' || c.isAlpha || Text.isLetter c

/-- A character that may go on a name. -/
def continuesName (c : Char) : Bool :=
  beginsName c || c.isDigit || Text.isMark c || Text.isDecimal c || Text.isConnector c ||
    c == '\u200C' || c == '\u200D'

/-- The text after a comment between stars, with whether a line ended in it; none if it is open. -/
def afterComment (ended : Bool) : List Char → Option (Bool × List Char)
  | '*' :: '/' :: rest => some (ended, rest)
  | c :: rest => afterComment (ended || isLineEnd c) rest
  | [] => none

/-- Passes white space and comments, of at most `fuel` pieces. -/
def skipBlank (fuel : Nat) (ended : Bool) (cs : List Char) : Except String (Bool × List Char) :=
  match fuel, cs with
  | 0, cs => .ok (ended, cs)
  | _, [] => .ok (ended, [])
  | n + 1, '/' :: '/' :: rest => skipBlank n ended (rest.dropWhile fun c => !isLineEnd c)
  | n + 1, '/' :: '*' :: rest =>
    match afterComment ended rest with
    | some (ended, rest) => skipBlank n ended rest
    | none => .error "unexpected end of comment"
  | n + 1, c :: rest =>
    if isSpace c then skipBlank n ended rest
    else if isLineEnd c then skipBlank n true rest
    else .ok (ended, c :: rest)

/-! ## Escapes -/

/-- The value of a hexadecimal digit. -/
def hexDigit? (c : Char) : Option Nat :=
  if c.isDigit then some (c.toNat - 48)
  else if 'a' ≤ c && c ≤ 'f' then some (c.toNat - 87)
  else if 'A' ≤ c && c ≤ 'F' then some (c.toNat - 55)
  else none

/-- The value of digits in a base, none if there is another character. -/
def digits? (base : Nat) (cs : List Char) : Option Nat :=
  cs.foldl (fun acc c => do
    let d ← hexDigit? c
    if d < base then return (← acc) * base + d else none) (some 0)

/-- The units of a code point. -/
def unitsOf (point : Nat) : Utf16 :=
  if point < 0x10000 then [point.toUInt16]
  else
    [(0xD800 + (point - 0x10000) / 0x400).toUInt16, (0xDC00 + (point - 0x10000) % 0x400).toUInt16]

/-- Reads what follows `\u`. -/
def unicodeEscape (cs : List Char) : Except String (Nat × List Char) :=
  match cs with
  | '\x7b' :: rest =>
    let ds := rest.takeWhile (· != '\x7d')
    match digits? 16 ds, rest.drop ds.length with
    | some n, _ :: rest =>
      if ds.isEmpty || n > 0x10FFFF then .error "malformed escape sequence in string literal"
      else .ok (n, rest)
    | _, _ => .error "malformed escape sequence in string literal"
  | a :: b :: c :: d :: rest =>
    match digits? 16 [a, b, c, d] with
    | some n => .ok (n, rest)
    | none => .error "malformed escape sequence in string literal"
  | _ => .error "malformed escape sequence in string literal"

/-- The octal digits in front, at most three and at most 255 in value. -/
def octalEscape (cs : List Char) : Nat × List Char :=
  let isOctal (c : Char) : Bool := '0' ≤ c && c ≤ '7'
  let ds := (cs.take 3).takeWhile isOctal
  let high := (ds.head?.map fun d => decide ('3' < d)).getD false
  let ds := if ds.length = 3 && high then ds.take 2 else ds
  ((digits? 8 ds).getD 0, cs.drop ds.length)

/-- Reads what follows a backslash in a string: the units it stands for, and whether it is an
octal escape. -/
def escape (cs : List Char) : Except String (Utf16 × Bool × List Char) :=
  match cs with
  | [] => .error "unexpected end of string"
  | '\r' :: '\n' :: rest => .ok ([], false, rest)
  | 'u' :: rest => do
    let (n, rest) ← unicodeEscape rest
    return (unitsOf n, false, rest)
  | 'x' :: a :: b :: rest =>
    match digits? 16 [a, b] with
    | some n => .ok (unitsOf n, false, rest)
    | none => .error "malformed escape sequence in string literal"
  | 'x' :: _ => .error "malformed escape sequence in string literal"
  | c :: rest =>
    if isLineEnd c then .ok ([], false, rest)
    else if '0' ≤ c && c ≤ '7' then
      let (n, rest') := octalEscape (c :: rest)
      let zero := c = '0' && !((rest.head?.map Char.isDigit).getD false)
      .ok (unitsOf n, !zero, rest')
    else
      let plain : Char := match c with
        | 'b' => '\x08'
        | 'f' => '\x0c'
        | 'n' => '\n'
        | 'r' => '\r'
        | 't' => '\t'
        | 'v' => '\x0b'
        | c => c
      .ok (Utf16.ofChar plain, c == '8' || c == '9', rest)

/-- Reads a string up to its closing quote, `read` being its units backwards. -/
def string (fuel : Nat) (quote : Char) (legacy : Bool) (read : Utf16) (cs : List Char) :
    Except String (Token × List Char) :=
  match fuel, cs with
  | 0, _ => .error "unexpected end of string"
  | _, [] => .error "unexpected end of string"
  | n + 1, '\\' :: rest => do
    let (us, octal, rest) ← escape rest
    string n quote (legacy || octal) (us.reverse ++ read) rest
  | n + 1, c :: rest =>
    if c = quote then .ok (.str read.reverse legacy, rest)
    else if c = '\n' || c = '\r' then .error "unexpected end of string"
    else string n quote legacy ((Utf16.ofChar c).reverse ++ read) rest

/-- Reads the text of a template up to an inserted expression or its end; tells whether it is
the end. -/
def template (fuel : Nat) (read : Utf16) (cs : List Char) :
    Except String (Utf16 × Bool × List Char) :=
  match fuel, cs with
  | 0, _ => .error "unexpected end of string"
  | _, [] => .error "unexpected end of string"
  | _ + 1, '\x60' :: rest => .ok (read.reverse, true, rest)
  | _ + 1, '$' :: '\x7b' :: rest => .ok (read.reverse, false, rest)
  | n + 1, '\\' :: rest => do
    let (us, octal, rest) ← escape rest
    if octal then .error "malformed escape sequence in string literal"
    else template n (us.reverse ++ read) rest
  | n + 1, '\r' :: '\n' :: rest => template n (10 :: read) rest
  | n + 1, '\r' :: rest => template n (10 :: read) rest
  | n + 1, c :: rest => template n ((Utf16.ofChar c).reverse ++ read) rest

/-! ## Names and numbers -/

/-- Reads the rest of a name, `read` being its units backwards. -/
def nameRest (fuel : Nat) (escaped : Bool) (read : Utf16) (cs : List Char) :
    Except String (Token × List Char) :=
  match fuel, cs with
  | 0, cs => .ok (.name read.reverse escaped, cs)
  | n + 1, '\\' :: 'u' :: rest => do
    let (point, rest) ← unicodeEscape rest
    let c := Char.ofNat point
    let fits := if read.isEmpty then beginsName c else continuesName c
    if fits then nameRest n true ((unitsOf point).reverse ++ read) rest
    else .error "invalid character in identifier"
  | n + 1, c :: rest =>
    if continuesName c then nameRest n escaped ((Utf16.ofChar c).reverse ++ read) rest
    else .ok (.name read.reverse escaped, c :: rest)
  | _, [] => .ok (.name read.reverse escaped, [])

/-- The digits in front, single underscores between two of them being passed over. -/
def digitRun (isDigit : Char → Bool) (fuel : Nat) (cs : List Char) : List Char × List Char :=
  match fuel, cs with
  | 0, cs => ([], cs)
  | n + 1, '_' :: c :: rest =>
    if isDigit c then
      let (ds, rest) := digitRun isDigit n (c :: rest)
      (ds, rest)
    else ([], '_' :: c :: rest)
  | n + 1, c :: rest =>
    if isDigit c then
      let (ds, rest) := digitRun isDigit n rest
      (c :: ds, rest)
    else ([], c :: rest)
  | _, [] => ([], [])

/-- Reads digits in a base other than ten. -/
def based (base : Nat) (cs : List Char) : Except String (Token × List Char) :=
  let isDigit (c : Char) : Bool := ((hexDigit? c).map fun d => decide (d < base)).getD false
  let (ds, rest) := digitRun isDigit (cs.length + 1) cs
  match ds, digits? base ds with
  | [], _ => .error "invalid number literal"
  | _, some n => .ok (.num (Decimal.toFloat n 0) false, rest)
  | _, none => .error "invalid number literal"

/-- Reads the exponent of a number, none if there is none. -/
def exponent (cs : List Char) : Except String (Int × List Char) :=
  match cs with
  | e :: rest =>
    if e = 'e' || e = 'E' then
      let (down, rest) := match rest with
        | '-' :: rest => (true, rest)
        | '+' :: rest => (false, rest)
        | rest => (false, rest)
      let (ds, rest) := digitRun Char.isDigit (rest.length + 1) rest
      match ds, digits? 10 ds with
      | [], _ => .error "invalid number literal"
      | _, some n => .ok (if down then -(n : Int) else n, rest)
      | _, none => .error "invalid number literal"
    else .ok (0, cs)
  | [] => .ok (0, [])

/-- Reads a decimal number. -/
def decimal (cs : List Char) : Except String (Token × List Char) := do
  let (whole, rest) := digitRun Char.isDigit (cs.length + 1) cs
  let (fraction, rest) := match rest with
    | '.' :: more => digitRun Char.isDigit (more.length + 1) more
    | rest => ([], rest)
  let (e, rest) ← exponent rest
  let digits := (digits? 10 (whole ++ fraction)).getD 0
  return (.num (Decimal.toFloat digits (e - fraction.length)) false,
    rest)

/-- Reads a number. -/
def number (cs : List Char) : Except String (Token × List Char) := do
  let (token, rest) ← match cs with
    | '0' :: c :: rest =>
      if c = 'x' || c = 'X' then based 16 rest
      else if c = 'o' || c = 'O' then based 8 rest
      else if c = 'b' || c = 'B' then based 2 rest
      else if c.isDigit then
        let ds := (c :: rest).takeWhile Char.isDigit
        let rest := (c :: rest).drop ds.length
        if ds.all fun d => d ≤ '7' then
          .ok (.num (Decimal.toFloat ((digits? 8 ds).getD 0) 0) true, rest)
        else .ok (.num (Decimal.toFloat ((digits? 10 ds).getD 0) 0) true, rest)
      else decimal cs
    | cs => decimal cs
  match rest with
  | c :: _ =>
    if beginsName c || c.isDigit || c = '\\' then .error "invalid number literal"
    else return (token, rest)
  | [] => return (token, rest)

/-! ## Marks -/

/-- The marks of more than one character, the longest first. -/
def longMarks : List String :=
  [">>>=", "...", "===", "!==", "**=", "<<=", ">>=", ">>>", "&&=", "||=", "??=", "=>", "==", "!=",
   "<=", ">=", "&&", "||", "??", "?.", "++", "--", "+=", "-=", "*=", "/=", "%=", "&=", "|=", "^=",
   "<<", ">>", "**"]

/-- The marks of one character. -/
def shortMarks : List Char := "\x7b\x7d()[];,<>+-*/%&|^!~?:=.\x60".toList

/-- Reads a mark. -/
def markAt (cs : List Char) : Except String (Token × List Char) :=
  let long := longMarks.find? fun m =>
    m.toList.isPrefixOf cs &&
      !(m == "?." && (((cs.drop 2).head?).map Char.isDigit).getD false)
  match long, cs with
  | some m, _ => .ok (.mark m, cs.drop m.length)
  | none, c :: rest =>
    if shortMarks.contains c then .ok (.mark c.toString, rest)
    else .error "unexpected character"
  | none, [] => .ok (.ending, [])

/-- A token in a text: whether a line ended before it, the text from it on, and the text after
it. -/
structure Located where
  token : Token
  ended : Bool
  here : List Char
  rest : List Char

/-- Reads the next token. -/
def next (cs : List Char) : Except String Located := do
  let (ended, cs) ← skipBlank (cs.length + 1) false cs
  let (token, rest) ← match cs with
    | [] => .ok (.ending, [])
    | '"' :: rest => string (rest.length + 1) '"' false [] rest
    | '\'' :: rest => string (rest.length + 1) '\'' false [] rest
    | '.' :: c :: rest =>
      if c.isDigit then number ('.' :: c :: rest) else markAt ('.' :: c :: rest)
    | c :: rest =>
      if c.isDigit then number (c :: rest)
      else if beginsName c || c = '\\' then nameRest (rest.length + 2) false [] (c :: rest)
      else markAt (c :: rest)
  return ⟨token, ended, cs, rest⟩

end Token
end LoadHook.Script
