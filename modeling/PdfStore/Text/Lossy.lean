import PdfStore.Bytes

/-!
# Reading damaged UTF-8

`Text.lossy` reads any bytes as UTF-8. A sequence that is cut short or cannot be continued stands for
one replacement character, and reading goes on at the byte that did not fit.
-/

namespace PdfStore.Text

/-- A started sequence: bytes still to come, the range of the next one, and the bits so far. -/
structure Pending where
  missing : Nat
  low : UInt8
  high : UInt8
  bits : Nat

def replacement : Char := '\uFFFD'

/-- A byte at the start of a character: a character of its own, the start of a longer one, or neither. -/
def startChar (b : UInt8) : List Char × Option Pending :=
  let bits := b.toNat
  if b < 0x80 then ([Char.ofNat bits], none)
  else if b < 0xC2 then ([replacement], none)
  else if b < 0xE0 then ([], some ⟨1, 0x80, 0xBF, bits % 32⟩)
  else if b == 0xE0 then ([], some ⟨2, 0xA0, 0xBF, bits % 16⟩)
  else if b == 0xED then ([], some ⟨2, 0x80, 0x9F, bits % 16⟩)
  else if b < 0xF0 then ([], some ⟨2, 0x80, 0xBF, bits % 16⟩)
  else if b == 0xF0 then ([], some ⟨3, 0x90, 0xBF, bits % 8⟩)
  else if b < 0xF4 then ([], some ⟨3, 0x80, 0xBF, bits % 8⟩)
  else if b == 0xF4 then ([], some ⟨3, 0x80, 0x8F, bits % 8⟩)
  else ([replacement], none)

def lossyFrom : Option Pending → Bytes → List Char
  | none, [] => []
  | some _, [] => [replacement]
  | none, b :: rest =>
    let (done, pending) := startChar b
    done ++ lossyFrom pending rest
  | some p, b :: rest =>
    if p.low ≤ b && b ≤ p.high then
      let bits := p.bits * 64 + b.toNat % 64
      if p.missing ≤ 1 then Char.ofNat bits :: lossyFrom none rest
      else lossyFrom (some ⟨p.missing - 1, 0x80, 0xBF, bits⟩) rest
    else
      let (done, pending) := startChar b
      replacement :: done ++ lossyFrom pending rest

/-- The text that the bytes encode, with replacement characters where they encode none. -/
def lossy (b : Bytes) : String := String.ofList (lossyFrom none b)

end PdfStore.Text
