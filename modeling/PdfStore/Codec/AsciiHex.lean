import PdfStore.Codec.Basic

/-!
# Hexadecimal text

Bytes as pairs of hexadecimal digits, ended by `>`. The reader stops at the first `>`, passes over
white space wherever it stands, and takes a last digit without a partner as the upper half of a byte.
-/

namespace PdfStore.AsciiHex

def encode (data : Bytes) : Bytes := data.flatMap Bytes.hexPair ++ ['>'.toUInt8]

/-- The digits that count: those before the first `>`, without white space. -/
def digits (data : Bytes) : Bytes :=
  (data.takeWhile (· ≠ '>'.toUInt8)).filter fun b => !Bytes.isBlank b

/-- The bytes of consecutive pairs of digits, the first of which has number `position`. -/
def pairs (position : Nat) : Bytes → Except CodecError Bytes
  | [] => .ok []
  | [a] =>
    match Bytes.hexValue? a with
    | none => .error (.badDigit a position)
    | some high => .ok [UInt8.ofNat (16 * high)]
  | a :: b :: rest =>
    match Bytes.hexValue? a, Bytes.hexValue? b with
    | none, _ => .error (.badDigit a position)
    | _, none => .error (.badDigit b (position + 1))
    | some high, some low => (pairs (position + 2) rest).map (UInt8.ofNat (16 * high + low) :: ·)

def decode (data : Bytes) : Except CodecError Bytes := pairs 0 (digits data)

def codec : Codec := ⟨"ASCIIHexDecode", fun data => .ok (encode data), decode⟩

end PdfStore.AsciiHex
