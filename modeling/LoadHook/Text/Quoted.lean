import LoadHook.Text.Letter

/-!
# Quoted text for messages

A text between double quotes in which nothing is invisible: line ends, quotes and
backslashes get a backslash, and characters without a shape of their own are written
by their number.
-/
namespace LoadHook.Text

/-- Ranges of format characters, spaces and line separators beyond ASCII. -/
def shapelessRanges : List (Nat × Nat) :=
  [(0x7F, 0xA0), (0xAD, 0xAD), (0x600, 0x605), (0x61C, 0x61C), (0x6DD, 0x6DD), (0x70F, 0x70F),
   (0x890, 0x891), (0x8E2, 0x8E2), (0x1680, 0x1680), (0x180E, 0x180E), (0x2000, 0x200F),
   (0x2028, 0x202F), (0x205F, 0x206F), (0x3000, 0x3000), (0xE000, 0xF8FF), (0xFEFF, 0xFEFF),
   (0xFFF0, 0xFFFB), (0xFFFE, 0xFFFF), (0x1D173, 0x1D17A), (0xE0000, 0x10FFFF)]

/-- Whether a character is written by its number. -/
def isShapeless (c : Char) : Bool :=
  let n := c.toNat
  n < 0x20 || shapelessRanges.any (fun r => r.1 ≤ n && n ≤ r.2) || isMark c

/-- A character between quotes. -/
def quotedChar (c : Char) : List Char :=
  if c = '"' then ['\\', '"']
  else if c = '\\' then ['\\', '\\']
  else if c = '\t' then ['\\', 't']
  else if c = '\r' then ['\\', 'r']
  else if c = '\n' then ['\\', 'n']
  else if c = '\x00' then ['\\', '0']
  else if isShapeless c then
    ['\\', 'u', '\x7b'] ++ Nat.toDigits 16 c.toNat ++ ['\x7d']
  else [c]

/-- A text between quotes. -/
def quoted (s : String) : String :=
  String.ofList ('"' :: s.toList.flatMap quotedChar ++ ['"'])

end LoadHook.Text
