/-!
# Blanks and lines

White space in the sense of Unicode's `White_Space` property, trimming by it,
and the cut of a text into lines. Everything works on lists of characters, so
that the laws below are laws of lists.
-/
namespace LoadHook.Text

/-- The characters of Unicode's `White_Space` property. -/
def isBlank (c : Char) : Bool :=
  let n := c.toNat
  (9 ≤ n && n ≤ 13) || n == 0x20 || n == 0x85 || n == 0xA0 || n == 0x1680 ||
    (0x2000 ≤ n && n ≤ 0x200A) || n == 0x2028 || n == 0x2029 || n == 0x202F ||
    n == 0x205F || n == 0x3000

/-- A text of white space only. -/
def allBlank (cs : List Char) : Bool := cs.all isBlank

/-- The text without its leading blanks. -/
def trimStart (cs : List Char) : List Char := cs.dropWhile isBlank

/-- The text without its trailing blanks. -/
def trimEnd (cs : List Char) : List Char := (cs.reverse.dropWhile isBlank).reverse

/-- The text without the blanks at either end. -/
def trim (cs : List Char) : List Char := trimEnd (trimStart cs)

@[simp] theorem trimStart_nil : trimStart [] = [] := rfl
@[simp] theorem trimEnd_nil : trimEnd [] = [] := rfl
@[simp] theorem allBlank_nil : allBlank [] = true := rfl

/-- Closes a line read backwards; a carriage return before the line feed is not part of it. -/
def closeLine : List Char → List Char
  | '\r' :: line => line.reverse
  | line => line.reverse

/-- Cuts the rest of a text into lines, `line` being the begun line read backwards. -/
def gatherLines (line : List Char) : List Char → List (List Char)
  | [] => if line.isEmpty then [] else [line.reverse]
  | c :: rest =>
    if c = '\n' then closeLine line :: gatherLines [] rest else gatherLines (c :: line) rest

/-- The lines of a text, ended by a line feed with an optional carriage return before it.
The end of the text ends the last line too, if it has any character. -/
def lines (cs : List Char) : List (List Char) := gatherLines [] cs

@[simp] theorem lines_nil : lines [] = [] := rfl

/-- The text after `start`, if it begins with it. -/
def after? (start : List Char) (cs : List Char) : Option (List Char) :=
  if start.isPrefixOf cs then some (cs.drop start.length) else none

/-- Letters `A` to `Z` in lower case; every other character stays. -/
def lowerAscii (cs : List Char) : List Char := cs.map Char.toLower

end LoadHook.Text
