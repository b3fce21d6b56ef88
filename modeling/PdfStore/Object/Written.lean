import PdfStore.Identity
import PdfStore.Number.Fixed
import PdfStore.Object.Basic
import PdfStore.Object.Error

/-!
# The written form of objects

An object is written as a sequence of tokens (`Object.tokens`). Most are fixed text; a real has no
written form unless it is finite, and a reference takes the identity that a table gives it. Writing goes
on until the first token that has no written form (`Token.written`), and what stands before it has been
written then.
-/

namespace PdfStore

/-- The identity of each reference in one store. -/
abbrev ReferenceTable := Reference → Option ObjectId

inductive Token
  | text (b : Bytes)
  | real (x : Float)
  | reference (r : Reference)

namespace Token

/-- The bytes of one token. Without a table every reference is written as the sentinel. -/
def bytes (table : Option ReferenceTable) : Token → Except ObjectError Bytes
  | text b => .ok b
  | real x =>
    if x.isFinite then .ok (Bytes.ofString (String.ofList (Dyadic.ofFloat x).fixedText))
    else .error (.nonFinite x)
  | reference r =>
    match table with
    | none => .ok (Bytes.ofString ObjectId.sentinel.token)
    | some identity =>
      match identity r with
      | some id => .ok (Bytes.ofString id.token)
      | none => .error (.unbound r)

def ofString (s : String) : Token := text (Bytes.ofString s)

end Token

/-- What has been written, and the error that ended it. -/
structure Written where
  bytes : Bytes
  failure : Option ObjectError

def Written.complete (w : Written) : Except ObjectError Bytes :=
  match w.failure with
  | none => .ok w.bytes
  | some e => .error e

/-- Writes tokens up to the first that fails. -/
def writeTokens (table : Option ReferenceTable) : List Token → Written
  | [] => ⟨[], none⟩
  | t :: rest =>
    match t.bytes table with
    | .error e => ⟨[], some e⟩
    | .ok b =>
      let w := writeTokens table rest
      ⟨b ++ w.bytes, w.failure⟩

/-! ## Leaves -/

/-- Bytes that cannot stand for themselves in a name: all but visible ASCII, and the delimiters. -/
def needsEscape (b : UInt8) : Bool :=
  b < '!'.toUInt8 || '~'.toUInt8 < b || (Bytes.ofString "()<>[]\x7b\x7d/%#").contains b

def nameBytes (n : Name) : Bytes :=
  (Bytes.ofString n).flatMap fun b => if needsEscape b then '#'.toUInt8 :: Bytes.hexPair b else [b]

def nameToken (n : Name) : Token := .text ('/'.toUInt8 :: nameBytes n)

def literalByte (b : UInt8) : Bytes :=
  if b == 0x28 || b == 0x29 || b == 0x5C then [0x5C, b]
  else if b == 0x0A then Bytes.ofString "\\n"
  else if b == 0x0D then Bytes.ofString "\\r"
  else if b == 0x09 then Bytes.ofString "\\t"
  else if b == 0x08 then Bytes.ofString "\\b"
  else if b == 0x0C then Bytes.ofString "\\f"
  else if 0x20 ≤ b && b ≤ 0x7E then [b]
  else 0x5C :: [b.toNat / 64, b.toNat / 8 % 8, b.toNat % 8].map fun d => UInt8.ofNat (48 + d)

def stringToken (s : ByteString) : Token :=
  match s.form with
  | .literal => .text ('('.toUInt8 :: s.bytes.flatMap literalByte ++ [')'.toUInt8])
  | .hex => .text ('<'.toUInt8 :: s.bytes.flatMap Bytes.hexPair ++ ['>'.toUInt8])

def numberToken : Number → Token
  | .integer n => .ofString (toString n.toInt)
  | .real x => .real x

/-! ## Composites -/

def spaced (items : List (List Token)) : List Token := List.intercalate [.ofString " "] items

def arrayTokens (items : List (List Token)) : List Token :=
  .ofString "[" :: spaced items ++ [.ofString "]"]

def entryTokens (e : Name × List Token) : List Token := nameToken e.1 :: .ofString " " :: e.2

def dictionaryTokens (entries : OrderedMap Name (List Token)) : List Token :=
  .ofString "<<" :: spaced (entries.entries.map entryTokens) ++ [.ofString ">>"]

/-- The entry `Length` is always the length of the data, whatever the dictionary says. -/
def streamTokens (entries : OrderedMap Name (List Token)) (data : Bytes) : List Token :=
  dictionaryTokens (entries.insert "Length" [.ofString (toString data.length)]) ++
    [.ofString "\nstream\n", .text data, .ofString "\nendstream"]

namespace Object

mutual

def tokens : Object → List Token
  | null => [.ofString "null"]
  | boolean b => [.ofString (if b then "true" else "false")]
  | number n => [numberToken n]
  | name n => [nameToken n]
  | string s => [stringToken s]
  | array items => arrayTokens (itemTokens items)
  | dictionary entries => dictionaryTokens (mapTokens entries)
  | stream entries data => streamTokens (mapTokens entries) data
  | indirect r => [.reference r]

def itemTokens : List Object → List (List Token)
  | [] => []
  | o :: rest => tokens o :: itemTokens rest

def mapTokens : OrderedMap Name Object → OrderedMap Name (List Token)
  | ⟨entries⟩ => ⟨listTokens entries⟩

def listTokens : List (Name × Object) → List (Name × List Token)
  | [] => []
  | (k, o) :: rest => (k, tokens o) :: listTokens rest

end

/-- Writes the object; references take their identities from `table`. -/
def write (table : Option ReferenceTable) (o : Object) : Written := writeTokens table o.tokens

/-- The bytes of the object, if all of it can be written. -/
def toBytes (table : Option ReferenceTable) (o : Object) : Except ObjectError Bytes :=
  (o.write table).complete

end Object

/-! ## Laws -/

/-- Writing two texts one after the other: the second starts only if the first is complete. -/
theorem writeTokens_append (table : Option ReferenceTable) (xs ys : List Token) :
    writeTokens table (xs ++ ys) =
      match (writeTokens table xs).failure with
      | some e => ⟨(writeTokens table xs).bytes, some e⟩
      | none => ⟨(writeTokens table xs).bytes ++ (writeTokens table ys).bytes,
          (writeTokens table ys).failure⟩ := by
  induction xs with
  | nil => simp [writeTokens]
  | cons t rest ih =>
    simp only [List.cons_append, writeTokens]
    cases t.bytes table with
    | error e => rfl
    | ok b =>
      simp only [ih]
      cases (writeTokens table rest).failure <;> simp [List.append_assoc]

end PdfStore
