import PdfStore.Codec.Basic

/-!
# Reading compressed blocks

Compressed data is a sequence of bits, the least significant bit of each byte first. It holds blocks of
stored bytes and blocks of symbols in a prefix code. A symbol is a byte, the end of the block, or a
length that together with a distance repeats bytes already read.

Bits that run out make the data `incomplete`; anything else that cannot be continued makes it `corrupt`.
-/

namespace PdfStore.Inflate

abbrev Bits := List Bool

/-- Takes bits from the front of those that remain. -/
abbrev Reader := StateT Bits (Except CodecError)

def bitsOf (data : Bytes) : Bits :=
  data.flatMap fun b => (List.range 8).map fun i => b.toNat.testBit i

def readBit : Reader Bool
  | [] => .error .incomplete
  | b :: rest => .ok (b, rest)

/-- A number of `n` bits, the least significant first. -/
def readNat : Nat → Reader Nat
  | 0 => pure 0
  | n + 1 => do
    let low ← readBit
    let high ← readNat n
    return 2 * high + low.toNat

/-- Passes over the bits that are left of a byte. -/
def align : Reader Unit := modify fun bits => bits.drop (bits.length % 8)

def readBytes : Nat → Array UInt8 → Reader (Array UInt8)
  | 0, out => pure out
  | n + 1, out => do
    let b ← readNat 8
    readBytes n (out.push (UInt8.ofNat b))

/-! ## Prefix codes -/

/-- A prefix code: how many codes there are of length one, two and so on, and their symbols in order
of length and then of symbol. Codes of one length follow each other, shorter codes come first. -/
structure Code where
  counts : List Nat
  symbols : Array Nat

/-- The code in which symbol `i` has the `i`-th length, zero meaning that it has no code. Length one is
counted even if nothing has it, so that a code without symbols takes a bit before it fails. -/
def Code.ofLengths (lengths : List Nat) : Code :=
  let numbered := lengths.zipIdx
  let longest := lengths.foldl max 1
  let groups := (List.range longest).map fun n => (numbered.filter fun e => e.1 == n + 1).map Prod.snd
  ⟨groups.map List.length, groups.flatten.toArray⟩

/-- Codes cover every sequence of bits exactly once. -/
def Code.isComplete (c : Code) : Bool :=
  c.counts.zipIdx.foldl (fun n e => n + e.1 * Nat.pow 2 (14 - e.2)) 0 == 32768

/-- A gap is allowed in a code without symbols, and in one whose only symbol has a code of one bit. -/
def Code.isUsable (c : Code) : Bool := c.isComplete || c.counts == [0] || c.counts == [1]

/-- Follows the bits through the lengths: `code` is the number read so far, `first` the least code of the
length reached, `index` the place of its symbol. -/
def readSymbolFrom (symbols : Array Nat) : List Nat → Nat → Nat → Nat → Reader Nat
  | [], _, _, _ => throw .corrupt
  | n :: counts, code, first, index => do
    let b ← readBit
    let code := 2 * code + b.toNat
    let first := 2 * first
    if code < first + n then
      match symbols[index + (code - first)]? with
      | some s => return s
      | none => throw .corrupt
    else readSymbolFrom symbols counts code (first + n) (index + n)

def Code.readSymbol (c : Code) : Reader Nat := readSymbolFrom c.symbols c.counts 0 0 0

/-! ## Blocks of symbols -/

/-- Least length and number of further bits, for the symbols from 257 on. -/
def lengths : List (Nat × Nat) :=
  [(3, 0), (4, 0), (5, 0), (6, 0), (7, 0), (8, 0), (9, 0), (10, 0), (11, 1), (13, 1), (15, 1), (17, 1),
   (19, 2), (23, 2), (27, 2), (31, 2), (35, 3), (43, 3), (51, 3), (59, 3), (67, 4), (83, 4), (99, 4),
   (115, 4), (131, 5), (163, 5), (195, 5), (227, 5), (258, 0)]

/-- Least distance and number of further bits. -/
def distances : List (Nat × Nat) :=
  [(1, 0), (2, 0), (3, 0), (4, 0), (5, 1), (7, 1), (9, 2), (13, 2), (17, 3), (25, 3), (33, 4), (49, 4),
   (65, 5), (97, 5), (129, 6), (193, 6), (257, 7), (385, 7), (513, 8), (769, 8), (1025, 9), (1537, 9),
   (2049, 10), (3073, 10), (4097, 11), (6145, 11), (8193, 12), (12289, 12), (16385, 13), (24577, 13)]

/-- A number that starts at entry `i` of the table. -/
def readRange (table : List (Nat × Nat)) (i : Nat) : Reader Nat := do
  match table[i]? with
  | none => throw .corrupt
  | some (least, extra) => return least + (← readNat extra)

/-- Repeats `n` bytes from `distance` back, which may be bytes it has just written. Before the start the
window holds zeros. -/
def repeatBack (distance : Nat) : Nat → Array UInt8 → Array UInt8
  | 0, out => out
  | n + 1, out =>
    let b := if distance ≤ out.size then out.getD (out.size - distance) 0 else 0
    repeatBack distance n (out.push b)

/-- The symbols up to the end of the block. Each takes at least one bit, so `steps` need not exceed the
number of bits. -/
def readSymbols (literal distance : Code) : Nat → Array UInt8 → Reader (Array UInt8)
  | 0, _ => throw .incomplete
  | steps + 1, out => do
    let s ← literal.readSymbol
    if s < 256 then readSymbols literal distance steps (out.push (UInt8.ofNat s))
    else if s = 256 then return out
    else
      let n ← readRange lengths (s - 257)
      let back ← readRange distances (← distance.readSymbol)
      readSymbols literal distance steps (repeatBack back n out)

/-! ## The two kinds of prefix codes -/

def fixedLiteral : Code :=
  .ofLengths (List.replicate 144 8 ++ List.replicate 112 9 ++ List.replicate 24 7 ++ List.replicate 8 8)

def fixedDistance : Code := .ofLengths (List.replicate 32 5)

/-- The order in which the lengths of the codes for lengths are given. -/
def lengthOrder : List Nat := [16, 17, 18, 0, 8, 7, 9, 6, 10, 5, 11, 4, 12, 3, 13, 2, 14, 1, 15]

/-- `n` lengths of three bits each. -/
def readTriples : Nat → Reader (List Nat)
  | 0 => pure []
  | n + 1 => do
    let length ← readNat 3
    let more ← readTriples n
    return length :: more

/-- A length and the number of symbols that have it, given the length before it. -/
def readRun (code : Code) (previous : Option Nat) : Reader (Nat × Nat) := do
  let s ← code.readSymbol
  if s < 16 then return (s, 1)
  else if s = 16 then
    match previous with
    | none => throw .corrupt
    | some length => return (length, 3 + (← readNat 2))
  else if s = 17 then return (0, 3 + (← readNat 3))
  else return (0, 11 + (← readNat 7))

/-- `missing` more lengths after those in `read`, which are in reverse. A run has at least one length, so
`steps` need not exceed `missing`. -/
def readLengths (code : Code) : Nat → Nat → List Nat → Reader (List Nat)
  | _, 0, read => return read.reverse
  | 0, _, _ => throw .incomplete
  | steps + 1, missing, read => do
    let (length, count) ← readRun code read.head?
    if missing < count then throw .corrupt
    readLengths code steps (missing - count) (List.replicate count length ++ read)

/-- The codes of a block that brings its own, for literals and for distances. -/
def readCodes : Reader (Code × Code) := do
  let literals := 257 + (← readNat 5)
  let count := 1 + (← readNat 5)
  let triples := 4 + (← readNat 4)
  if literals > 286 || count > 30 then throw .corrupt
  let given := lengthOrder.zip (← readTriples triples)
  let code := Code.ofLengths ((List.range 19).map fun s => (given.lookup s).getD 0)
  if !code.isComplete then throw .corrupt
  let all ← readLengths code (literals + count) (literals + count) []
  let literal := Code.ofLengths (all.take literals)
  let distance := Code.ofLengths (all.drop literals)
  if !(literal.isUsable && distance.isUsable) then throw .corrupt
  return (literal, distance)

/-! ## Blocks -/

def readStored (out : Array UInt8) : Reader (Array UInt8) := do
  align
  let n ← readNat 16
  let complement ← readNat 16
  if n + complement ≠ 65535 then throw .corrupt
  readBytes n out

/-- One block after its first bit. -/
def readBlock (out : Array UInt8) : Reader (Array UInt8) := do
  match ← readNat 2 with
  | 0 => readStored out
  | 1 => readSymbols fixedLiteral fixedDistance (← get).length out
  | 2 =>
    let (literal, distance) ← readCodes
    readSymbols literal distance (← get).length out
  | _ => throw .corrupt

/-- Blocks up to the one marked as last. Each takes at least three bits, so `steps` need not exceed the
number of bits. -/
def readBlocks : Nat → Array UInt8 → Reader (Array UInt8)
  | 0, _ => throw .incomplete
  | steps + 1, out => do
    let last ← readBit
    let out ← readBlock out
    if last then return out else readBlocks steps out

def inflate : Reader Bytes := do
  let out ← readBlocks (← get).length #[]
  return out.toList

end PdfStore.Inflate
