/-!
# Patterns and substitutions

Basic patterns as `sed` reads them: a pattern is a list of items, each an atom that may
be repeated, or an end of a group. A match is the leftmost one, and repetition takes as
much as it can.
-/
namespace LoadHook.Shell

/-- What one character is matched against. -/
inductive Atom where
  | char (c : Char)
  | any
  | set (negated : Bool) (ranges : List (Char × Char))

/-- Whether an atom matches a character. -/
def Atom.matches : Atom → Char → Bool
  | .char d, c => d = c
  | .any, c => c != '\n'
  | .set negated ranges, c => ranges.any (fun r => r.1 ≤ c && c ≤ r.2) != negated

/-- An item of a pattern. -/
inductive Item where
  | atom (a : Atom) (star : Bool)
  | lineStart
  | lineEnd
  | openGroup
  | closeGroup

/-- Reads the ranges of a set up to its closing bracket. -/
def ranges : List Char → List (Char × Char) × List Char
  | [] => ([], [])
  | ']' :: rest => ([], rest)
  | a :: '-' :: b :: rest =>
    if b = ']' then ([(a, a), ('-', '-')], rest)
    else
      let (rs, rest) := ranges rest
      ((a, b) :: rs, rest)
  | a :: rest =>
    let (rs, rest) := ranges rest
    ((a, a) :: rs, rest)

/-- Reads a set after its opening bracket; a closing bracket in front belongs to it. -/
def set (cs : List Char) : Atom × List Char :=
  let (negated, cs) := match cs with
    | '^' :: rest => (true, rest)
    | cs => (false, cs)
  match cs with
  | ']' :: rest =>
    let (rs, rest) := ranges rest
    (.set negated ((']', ']') :: rs), rest)
  | cs =>
    let (rs, rest) := ranges cs
    (.set negated rs, rest)

/-- An atom with the star that may follow it. -/
def starred (a : Atom) : List Char → Item × List Char
  | '*' :: rest => (.atom a true, rest)
  | rest => (.atom a false, rest)

/-- Reads a pattern. -/
def pattern (fuel : Nat) (first : Bool) (cs : List Char) : List Item :=
  match fuel, cs with
  | 0, _ => []
  | _, [] => []
  | n + 1, '\\' :: '(' :: rest => .openGroup :: pattern n true rest
  | n + 1, '\\' :: ')' :: rest => .closeGroup :: pattern n false rest
  | n + 1, '\\' :: 'n' :: rest =>
    let (item, rest) := starred (.char '\n') rest
    item :: pattern n false rest
  | n + 1, '\\' :: c :: rest =>
    let (item, rest) := starred (.char c) rest
    item :: pattern n false rest
  | n + 1, '[' :: rest =>
    let (a, rest) := set rest
    let (item, rest) := starred a rest
    item :: pattern n false rest
  | n + 1, '.' :: rest =>
    let (item, rest) := starred .any rest
    item :: pattern n false rest
  | n + 1, '^' :: rest =>
    if first then .lineStart :: pattern n true rest
    else
      let (item, rest) := starred (.char '^') rest
      item :: pattern n false rest
  | n + 1, '$' :: rest =>
    if rest.isEmpty then [.lineEnd]
    else
      let (item, rest) := starred (.char '$') rest
      item :: pattern n false rest
  | n + 1, '*' :: rest =>
    if first then .atom (.char '*') false :: pattern n false rest else pattern n false rest
  | n + 1, c :: rest =>
    let (item, rest) := starred (.char c) rest
    item :: pattern n false rest

/-- A place in a line: the characters before it, the last one first, and those after. -/
structure Spot where
  before : List Char
  after : List Char

/-- Where groups began and ended, as numbers of characters; the group begun last first. -/
structure Groups where
  opened : List Nat
  closed : List (Nat × Nat × Nat)
  count : Nat

/-- Opens a group at a place. -/
def Groups.enter (g : Groups) (place : Nat) : Groups :=
  { g with opened := place :: g.opened, count := g.count + 1 }

/-- Closes the group opened last. -/
def Groups.exit (g : Groups) (place : Nat) : Groups :=
  match g.opened with
  | [] => g
  | start :: rest =>
    { g with opened := rest, closed := (g.count - (g.opened.length - 1), start, place) :: g.closed }

/-- Matches items at a place; a repetition gives back until the rest matches. -/
def matchItems (fuel : Nat) (items : List Item) (s : Spot) (g : Groups) : Option (Spot × Groups) :=
  match fuel, items with
  | 0, _ => none
  | _, [] => some (s, g)
  | n + 1, .lineStart :: rest => if s.before.isEmpty then matchItems n rest s g else none
  | n + 1, .lineEnd :: rest => if s.after.isEmpty then matchItems n rest s g else none
  | n + 1, .openGroup :: rest => matchItems n rest s (g.enter s.before.length)
  | n + 1, .closeGroup :: rest => matchItems n rest s (g.exit s.before.length)
  | n + 1, .atom a false :: rest =>
    match s.after with
    | c :: after => if a.matches c then matchItems n rest ⟨c :: s.before, after⟩ g else none
    | [] => none
  | n + 1, .atom a true :: rest =>
    let more := match s.after with
      | c :: after =>
        if a.matches c then matchItems n (.atom a true :: rest) ⟨c :: s.before, after⟩ g else none
      | [] => none
    match more with
    | some r => some r
    | none => matchItems n rest s g

/-- The first match at or after a place. -/
def search (items : List Item) (before : List Char) : List Char → Option (Spot × Spot × Groups)
  | [] => (run ⟨before, []⟩).map fun r => (⟨before, []⟩, r)
  | c :: after =>
    match run ⟨before, c :: after⟩ with
    | some r => some (⟨before, c :: after⟩, r)
    | none => search items (c :: before) after
where
  /-- A match at a place. -/
  run (s : Spot) : Option (Spot × Groups) :=
    matchItems (s.after.length + 2 * items.length + 2) items s ⟨[], [], 0⟩

/-- The text that takes the place of a match. -/
def replacement (line : List Char) (start stop : Nat) (g : Groups) : List Char → List Char
  | '\\' :: 'n' :: rest => '\n' :: replacement line start stop g rest
  | '\\' :: c :: rest =>
    if c.isDigit then
      (match g.closed.find? fun k => k.1 == c.toNat - 48 with
        | some (_, a, b) => (line.drop a).take (b - a)
        | none => []) ++ replacement line start stop g rest
    else c :: replacement line start stop g rest
  | '&' :: rest => (line.drop start).take (stop - start) ++ replacement line start stop g rest
  | c :: rest => c :: replacement line start stop g rest
  | [] => []

/-- Replaces the first match in a line, or every match. -/
def substitute (fuel : Nat) (items : List Item) (text : List Char) (every : Bool)
    (before line : List Char) : List Char :=
  match fuel with
  | 0 => line
  | n + 1 =>
    match search items before line with
    | none => line
    | some (start, stop, g) =>
      let whole := before.reverse ++ line
      let skipped := line.take (start.before.length - before.length)
      let put := replacement whole start.before.length stop.before.length g text
      if every && !stop.after.isEmpty then
        if stop.before.length = start.before.length then
          match stop.after with
          | c :: after =>
            skipped ++ put ++ c :: substitute n items text every (c :: stop.before) after
          | [] => skipped ++ put
        else skipped ++ put ++ substitute n items text every stop.before stop.after
      else skipped ++ put ++ stop.after

/-- Cuts a text at the first `mark` that no backslash precedes. -/
def cutAt (mark : Char) : List Char → List Char × List Char
  | [] => ([], [])
  | '\\' :: c :: rest =>
    let (a, b) := cutAt mark rest
    if c = mark then (c :: a, b) else ('\\' :: c :: a, b)
  | c :: rest =>
    if c = mark then ([], rest)
    else
      let (a, b) := cutAt mark rest
      (c :: a, b)

/-- A substitution: pattern, replacement and flags. -/
structure Substitution where
  items : List Item
  text : List Char
  every : Bool

/-- Reads `s/pattern/replacement/flags`, the mark being any character. -/
def Substitution.ofText? : List Char → Option Substitution
  | 's' :: mark :: rest =>
    let (p, rest) := cutAt mark rest
    let (r, flags) := cutAt mark rest
    some ⟨pattern (p.length + 1) true p, r, flags.contains 'g'⟩
  | _ => none

/-- A line after a substitution. -/
def Substitution.apply (s : Substitution) (line : List Char) : List Char :=
  substitute (line.length + 1) s.items s.text s.every [] line

end LoadHook.Shell
