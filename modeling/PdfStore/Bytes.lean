/-!
# Bytes

A byte sequence is a list of bytes. Text becomes bytes in UTF-8, character by character.
-/

namespace PdfStore

abbrev Bytes := List UInt8

namespace Bytes

def ofString (s : String) : Bytes := s.toList.flatMap String.utf8EncodeChar

/-- ASCII white space: space, tab, line feed, form feed and carriage return. -/
def isBlank (b : UInt8) : Bool := b == 0x20 || b == 0x09 || b == 0x0A || b == 0x0C || b == 0x0D

/-- The upper-case hexadecimal digit of a number below sixteen. -/
def hexDigit (n : Nat) : UInt8 := if n < 10 then UInt8.ofNat (48 + n) else UInt8.ofNat (55 + n)

def hexPair (b : UInt8) : Bytes := [hexDigit (b.toNat / 16), hexDigit (b.toNat % 16)]

def hexValue? (b : UInt8) : Option Nat :=
  if 0x30 ≤ b && b ≤ 0x39 then some (b.toNat - 48)
  else if 0x41 ≤ b && b ≤ 0x46 then some (b.toNat - 55)
  else if 0x61 ≤ b && b ≤ 0x66 then some (b.toNat - 87)
  else none

theorem ofString_append (s t : String) : ofString (s ++ t) = ofString s ++ ofString t := by
  simp [ofString, List.flatMap_append]

end Bytes

end PdfStore
