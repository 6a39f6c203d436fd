/-!
# Text in 16-bit units

Script strings are sequences of 16-bit units and may hold half of a surrogate
pair. A text of characters has one form in units; reading units back as text
fails at the first lone half.
-/
namespace LoadHook.Text

/-- A sequence of 16-bit units. -/
abbrev Utf16 := List UInt16

namespace Utf16

/-- One unit for a character of the basic plane, else a surrogate pair. -/
def ofChar (c : Char) : Utf16 :=
  let n := c.toNat
  if n < 0x10000 then [n.toUInt16]
  else [(0xD800 + (n - 0x10000) / 0x400).toUInt16, (0xDC00 + (n - 0x10000) % 0x400).toUInt16]

/-- The units of a list of characters. -/
def ofChars (cs : List Char) : Utf16 := cs.flatMap ofChar

/-- The units of a text. -/
def ofString (s : String) : Utf16 := ofChars s.toList

/-- The first half of a surrogate pair. -/
def isLead (u : UInt16) : Bool := 0xD800 ≤ u && u ≤ 0xDBFF

/-- The second half of a surrogate pair. -/
def isTrail (u : UInt16) : Bool := 0xDC00 ≤ u && u ≤ 0xDFFF

/-- The code point of a surrogate pair. -/
def pairPoint (lead trail : UInt16) : Nat :=
  0x10000 + (lead.toNat - 0xD800) * 0x400 + (trail.toNat - 0xDC00)

/-- The characters of the units, a lone half of a pair being given to `lone`. -/
def charsWith (lone : UInt16 → Char) : Utf16 → List Char
  | [] => []
  | [u] => [if isLead u || isTrail u then lone u else Char.ofNat u.toNat]
  | u :: v :: rest =>
    if isLead u && isTrail v then Char.ofNat (pairPoint u v) :: charsWith lone rest
    else
      (if isLead u || isTrail u then lone u else Char.ofNat u.toNat) :: charsWith lone (v :: rest)

/-- The text of the units, U+FFFD standing for a lone half of a pair. -/
def toString (us : Utf16) : String := String.ofList (charsWith (fun _ => '\uFFFD') us)

/-- The number of bytes before the first lone half of a pair, none if there is no such half. -/
def loneAt (offset : Nat) : Utf16 → Option Nat
  | [] => none
  | [u] => if isLead u || isTrail u then some offset else none
  | u :: v :: rest =>
    if isLead u && isTrail v then loneAt (offset + 4) rest
    else if isLead u || isTrail u then some offset
    else loneAt (offset + (Char.ofNat u.toNat).utf8Size) (v :: rest)

/-- The text of the units, or the place in bytes of the first lone half of a pair. -/
def toString? (us : Utf16) : Except Nat String :=
  match loneAt 0 us with
  | some offset => .error offset
  | none => .ok us.toString

@[simp] theorem ofString_empty : ofString "" = [] := rfl

end Utf16
end LoadHook.Text
