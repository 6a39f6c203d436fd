import LoadHook.Decimal.Notation
import LoadHook.Json.Value

/-!
# Compact JSON text

The text of a document without any white space. Characters beyond ASCII stand for
themselves; the two-character escapes are used where there is one and `\u00xx` for
the other control characters.
-/
namespace LoadHook.Json

open Decimal (Style intChars)

/-- Doubles keep a fraction; leading exponents from -5 to 15 are written positionally. -/
def numberStyle : Style := ⟨-5, 15, true⟩

/-- A hexadecimal digit in lower case. -/
def hexDigit (n : Nat) : Char := Nat.digitChar (n % 16)

/-- A character inside quotes. -/
def escapeChar (c : Char) : List Char :=
  if c = '"' then ['\\', '"']
  else if c = '\\' then ['\\', '\\']
  else if c = '\n' then ['\\', 'n']
  else if c = '\r' then ['\\', 'r']
  else if c = '\t' then ['\\', 't']
  else if c = '\x08' then ['\\', 'b']
  else if c = '\x0c' then ['\\', 'f']
  else if c.toNat < 0x20 then ['\\', 'u', '0', '0', hexDigit (c.toNat / 16), hexDigit c.toNat]
  else [c]

/-- A text in quotes. -/
def quote (cs : List Char) : List Char := '"' :: cs.flatMap escapeChar ++ ['"']

mutual

/-- The compact text of a document. -/
def chars : Json → List Char
  | .null => ['n', 'u', 'l', 'l']
  | .bool true => ['t', 'r', 'u', 'e']
  | .bool false => ['f', 'a', 'l', 's', 'e']
  | .int n => intChars n
  | .real x => numberStyle.writeFloat x
  | .str s => quote s.toList
  | .arr items => '[' :: itemChars items
  | .obj members => '{' :: memberChars members

/-- The items of an array up to the closing bracket. -/
def itemChars : List Json → List Char
  | [] => [']']
  | [j] => chars j ++ [']']
  | j :: k :: rest => chars j ++ ',' :: itemChars (k :: rest)

/-- The members of an object up to the closing brace. -/
def memberChars : List (String × Json) → List Char
  | [] => ['}']
  | [(n, j)] => quote n.toList ++ ':' :: chars j ++ ['}']
  | (n, j) :: m :: rest => quote n.toList ++ ':' :: chars j ++ ',' :: memberChars (m :: rest)

end

/-- The compact text of a document. -/
def compact (j : Json) : String := String.ofList j.chars

@[simp] theorem toList_compact (j : Json) : j.compact.toList = j.chars := String.toList_ofList

end LoadHook.Json
