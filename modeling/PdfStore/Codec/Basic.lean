import PdfStore.OrderedMap
import PdfStore.Bytes
import PdfStore.Text.Quoted

/-!
# Codecs

A codec is a reversible transformation of bytes with a name. A registry holds the codecs at hand, one
for each name.
-/

namespace PdfStore

inductive CodecError
  | badDigit (b : UInt8) (position : Nat)
  | corrupt
  | incomplete
deriving DecidableEq, Repr

def CodecError.message : CodecError → String
  | badDigit b position =>
    s!"Invalid character {Text.quotedChar (Char.ofNat b.toNat)} at position {position}"
  | corrupt => "corrupt deflate stream"
  | incomplete => "incomplete deflate stream"

structure Codec where
  name : String
  encode : Bytes → Except CodecError Bytes
  decode : Bytes → Except CodecError Bytes

/-- Decoding undoes encoding. -/
def Codec.Reversible (c : Codec) : Prop :=
  ∀ data, ∃ encoded, c.encode data = .ok encoded ∧ c.decode encoded = .ok data

abbrev Registry := OrderedMap String Codec

namespace Registry

/-- Adds a codec under its own name in place of the one that had it. -/
def register (registry : Registry) (c : Codec) : Registry := registry.insert c.name c

def debug (registry : Registry) : String :=
  let names := ", ".intercalate (registry.keys.map Text.quoted)
  s!"FilterRegistry \x7b filters: [{names}] \x7d"

end Registry

end PdfStore
