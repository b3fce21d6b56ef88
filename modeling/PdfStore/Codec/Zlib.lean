import PdfStore.Codec.AsciiHex
import PdfStore.Codec.Inflate

/-!
# The compressed container

A header of two bytes, the compressed blocks, and a checksum of the plain bytes. The writer stores the
bytes in blocks of at most 65535, which every reader of the format accepts; the reader takes all kinds
of blocks and ignores what follows the checksum.
-/

namespace PdfStore

namespace Zlib

/-- Two sums modulo 65521: of the bytes, and of the first sum after each byte. -/
def checksum (data : Bytes) : Nat :=
  let (a, b) := data.foldl (fun (a, b) x =>
    let a := (a + x.toNat) % 65521
    (a, (b + a) % 65521)) (1, 0)
  65536 * b + a

/-- A number below `65536` in two bytes, the lower first. -/
def word (n : Nat) : Bytes := [UInt8.ofNat n, UInt8.ofNat (n / 256)]

def storedBlock (last : Bool) (data : Bytes) : Bytes :=
  UInt8.ofNat last.toNat :: word data.length ++ word (65535 - data.length) ++ data

def storedBlocks (data : Bytes) : Bytes :=
  if data.length ≤ 65535 then storedBlock true data
  else storedBlock false (data.take 65535) ++ storedBlocks (data.drop 65535)
termination_by data.length
decreasing_by simp only [List.length_drop]; omega

def encode (data : Bytes) : Bytes :=
  let sum := checksum data
  [0x78, 0x01] ++ storedBlocks data ++
    [UInt8.ofNat (sum / 16777216), UInt8.ofNat (sum / 65536), UInt8.ofNat (sum / 256), UInt8.ofNat sum]

/-- The header names the method, a window of at most 32768 bytes and no preset dictionary, and is
divisible by 31. -/
def isHeader (a b : UInt8) : Bool :=
  a.toNat % 16 == 8 && a.toNat / 16 ≤ 7 && b.toNat / 32 % 2 == 0 && (256 * a.toNat + b.toNat) % 31 == 0

def readBody : Inflate.Reader Bytes := do
  let data ← Inflate.inflate
  Inflate.align
  let sum ← Inflate.readBytes 4 #[]
  if sum.foldl (fun n x => 256 * n + x.toNat) 0 ≠ checksum data then throw .corrupt
  return data

def decode : Bytes → Except CodecError Bytes
  | a :: b :: rest =>
    if isHeader a b then (readBody.run (Inflate.bitsOf rest)).map Prod.fst else .error .corrupt
  | _ => .error .incomplete

def codec : Codec := ⟨"FlateDecode", fun data => .ok (encode data), decode⟩

end Zlib

/-- The codecs that every store knows. -/
def Registry.standard : Registry :=
  Registry.register (Registry.register .empty Zlib.codec) AsciiHex.codec

end PdfStore
