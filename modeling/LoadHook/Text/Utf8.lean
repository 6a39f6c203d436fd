/-!
# Text in bytes

A file holds bytes. `decode` reads them as UTF-8 or refuses; `decodeLossy` always
answers, with U+FFFD for each longest piece that begins a character and breaks off.
-/
namespace LoadHook.Text

/-- The bytes of a text. -/
def encode (s : String) : ByteArray := s.toUTF8

/-- The text of the bytes, none if they are not UTF-8. -/
def decode (bytes : ByteArray) : Option String := String.fromUTF8? bytes

/-- What is written as a text reads back as that text. -/
@[simp] theorem decode_encode (s : String) : decode (encode s) = some s := by
  simp only [decode, encode, String.fromUTF8?, String.toUTF8_eq_toByteArray, dif_pos s.isValidUTF8]
  rfl

/-- What may follow a first byte: how many bytes, and the range of the next one. -/
def followers (b : UInt8) : Option (Nat × UInt8 × UInt8) :=
  if 0xC2 ≤ b && b ≤ 0xDF then some (1, 0x80, 0xBF)
  else if b = 0xE0 then some (2, 0xA0, 0xBF)
  else if b = 0xED then some (2, 0x80, 0x9F)
  else if 0xE1 ≤ b && b ≤ 0xEF then some (2, 0x80, 0xBF)
  else if b = 0xF0 then some (3, 0x90, 0xBF)
  else if 0xF1 ≤ b && b ≤ 0xF3 then some (3, 0x80, 0xBF)
  else if b = 0xF4 then some (3, 0x80, 0x8F)
  else none

/-- Reads `count` further bytes, the next between `lo` and `hi`. The code point is
none when the piece breaks off; the bytes that did not fit are left over. -/
def takeFollowers (count : Nat) (lo hi : UInt8) (point : Nat) (bytes : List UInt8) :
    Option Nat × List UInt8 :=
  match count, bytes with
  | 0, rest => (some point, rest)
  | _ + 1, [] => (none, [])
  | n + 1, b :: rest =>
    if lo ≤ b && b ≤ hi then takeFollowers n 0x80 0xBF (point * 64 + (b.toNat - 0x80)) rest
    else (none, b :: rest)

/-- The bits of the code point that a first byte with `count` followers carries. -/
def leadBits (count : Nat) (b : UInt8) : Nat :=
  match count with
  | 1 => b.toNat - 0xC0
  | 2 => b.toNat - 0xE0
  | _ => b.toNat - 0xF0

/-- The sign that stands for bytes which are no text. -/
def replacement : Char := '\uFFFD'

/-- `decodeLossy` for at most `fuel` characters. -/
def decodeLossyUpTo (fuel : Nat) (bytes : List UInt8) : List Char :=
  match fuel, bytes with
  | 0, _ => []
  | _, [] => []
  | n + 1, b :: rest =>
    if b < 0x80 then Char.ofNat b.toNat :: decodeLossyUpTo n rest
    else match followers b with
      | none => replacement :: decodeLossyUpTo n rest
      | some (count, lo, hi) =>
        let (point, rest) := takeFollowers count lo hi (leadBits count b) rest
        (point.map Char.ofNat).getD replacement :: decodeLossyUpTo n rest

/-- The text of any bytes, U+FFFD standing for what is not UTF-8. -/
def decodeLossy (bytes : ByteArray) : List Char := decodeLossyUpTo bytes.size bytes.toList

end LoadHook.Text
