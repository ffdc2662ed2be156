/-!
# Bytes as text

Bytes that come from elsewhere need not be the encoding of a text. They can be shown all the same:
what stands for no character becomes a replacement character, one for each run of bytes that could
have been the start of one.
-/

namespace Scaffold.Text

/-- What the first byte of a character says of those behind it: how many there are, and between
which two the next one lies. -/
def continuation? (first : UInt8) : Option (Nat × UInt8 × UInt8) :=
  if first < 0x80 then some (0, 0x80, 0xBF)
  else if first < 0xC2 then none
  else if first < 0xE0 then some (1, 0x80, 0xBF)
  else if first = 0xE0 then some (2, 0xA0, 0xBF)
  else if first = 0xED then some (2, 0x80, 0x9F)
  else if first < 0xF0 then some (2, 0x80, 0xBF)
  else if first = 0xF0 then some (3, 0x90, 0xBF)
  else if first < 0xF4 then some (3, 0x80, 0xBF)
  else if first = 0xF4 then some (3, 0x80, 0x8F)
  else none

/-- The number of bytes that continue a character to which `owed` bytes are missing, the next one
between `least` and `greatest`. -/
def continued : (owed : Nat) → (least greatest : UInt8) → List UInt8 → Nat
  | owed + 1, least, greatest, byte :: rest =>
    if least ≤ byte && byte ≤ greatest then 1 + continued owed 0x80 0xBF rest else 0
  | _, _, _, _ => 0

/-- The number of bytes that stand for no character together. -/
def brokenLength : List UInt8 → Nat
  | [] => 0
  | first :: rest =>
    match continuation? first with
    | none => 1
    | some (owed, least, greatest) => 1 + continued owed least greatest rest

/-- The replacement character. -/
def replacement : Char := '\uFFFD'

/-- Reads at most `count` characters. -/
def readLossily : (count : Nat) → List UInt8 → List Char
  | 0, _ | _, [] => []
  | count + 1, bytes =>
    match bytes.toByteArray.utf8DecodeChar? 0 with
    | some c => c :: readLossily count (bytes.drop c.utf8Size)
    | none => replacement :: readLossily count (bytes.drop (brokenLength bytes))

/-- Bytes as a text, with replacements for what is none. -/
def lossy (bytes : ByteArray) : String := String.ofList (readLossily bytes.size bytes.data.toList)

end Scaffold.Text
