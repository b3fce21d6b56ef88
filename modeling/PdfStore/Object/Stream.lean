import PdfStore.Codec.Basic
import PdfStore.Object.Basic
import PdfStore.Object.Error

/-!
# Streams

A stream is a dictionary with a payload of bytes. The entry `Filter` names the codecs that produced the
payload, the last one first: nothing, one name, or an array of names.
-/

namespace PdfStore

structure Stream where
  entries : Dictionary
  data : Bytes

def Object.stream? : Object → Option Stream
  | .stream entries data => some ⟨entries, data⟩
  | _ => none

namespace Stream

def toObject (s : Stream) : Object := .stream s.entries s.data

/-- A stream of plain bytes, which no codec has produced. -/
def ofPlain (entries : Dictionary) (data : Bytes) : Stream := ⟨entries.erase "Filter", data⟩

/-- The same dictionary with other plain bytes. -/
def setPlain (s : Stream) (data : Bytes) : Stream := ofPlain s.entries data

/-- The names in an array that holds names only. -/
def namesOf : List Object → Except ObjectError (List Name)
  | [] => .ok []
  | .name n :: rest => (namesOf rest).map (n :: ·)
  | _ :: _ => .error .malformedFilter

/-- The codecs that produced the payload, in the order in which they are undone. -/
def filters (s : Stream) : Except ObjectError (List Name) :=
  match s.entries.get? "Filter" with
  | none => .ok []
  | some (.name n) => .ok [n]
  | some (.array items) => namesOf items
  | some _ => .error .malformedFilter

def filterEntry : List Name → Object
  | [n] => .name n
  | ns => .array (ns.map .name)

def codec (registry : Registry) (name : Name) : Except ObjectError Codec :=
  match registry.get? name with
  | some c => .ok c
  | none => .error (.unknownFilter name)

/-- Replaces the payload by what the named codec makes of it and lists the codec first. -/
def encode (registry : Registry) (name : Name) (s : Stream) : Except ObjectError Stream := do
  let c ← codec registry name
  let names ← s.filters
  let data ← (c.encode s.data).mapError (.filter c.name)
  return ⟨s.entries.insert "Filter" (filterEntry (name :: names)), data⟩

def decodeData (registry : Registry) : List Name → Bytes → Except ObjectError Bytes
  | [], data => .ok data
  | name :: rest, data => do
    let c ← codec registry name
    let plain ← (c.decode data).mapError (.filter c.name)
    decodeData registry rest plain

def decode (registry : Registry) (s : Stream) : Except ObjectError Bytes := do
  decodeData registry (← s.filters) s.data

end Stream

end PdfStore
