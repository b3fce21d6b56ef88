import PdfStore.Text.Quoted
import PdfStore.Text.Words

/-!
# Object identities

A stored object is named by the number of its slot in the cross-reference table and the slot's
generation at the time the name was given out, written `12 0 R`. The module reads and writes that text.
-/

namespace PdfStore

structure ObjectId where
  number : UInt32
  generation : UInt16
deriving DecidableEq, Repr, Inhabited

inductive IdentityError
  | malformed (text : String)
  | badNumber (word : String)
  | badGeneration (word : String)
deriving DecidableEq, Repr

namespace IdentityError

def message : IdentityError → String
  | malformed text => s!"malformed object identity: {Text.quoted text}"
  | badNumber word => s!"invalid object number: {word}"
  | badGeneration word => s!"invalid generation: {word}"

end IdentityError

namespace ObjectId

/-- The identity of the head of the free list, which names no object. -/
def sentinel : ObjectId := ⟨0, 65535⟩

def isSentinel (id : ObjectId) : Bool := id == sentinel

/-- The line that opens the body of an object. -/
def header (id : ObjectId) : String := s!"{id.number.toNat} {id.generation.toNat} obj"

/-- The token by which other objects refer to this one. -/
def token (id : ObjectId) : String := s!"{id.number.toNat} {id.generation.toNat} R"

def debug (id : ObjectId) : String :=
  if id.isSentinel then "ObjectId(sentinel)"
  else s!"ObjectId({id.number.toNat}v{id.generation.toNat})"

def order (a b : ObjectId) : Ordering := (compare a.number b.number).then (compare a.generation b.generation)

/-- Reads two words, number and generation, or three with `R` as the last. -/
def parse (text : String) : Except IdentityError ObjectId :=
  match Text.words text.toList with
  | [number, generation] => read number generation
  | [number, generation, ['R']] => read number generation
  | _ => .error (.malformed text)
where
  read (number generation : List Char) : Except IdentityError ObjectId :=
    match Text.decimal? 4294967295 number with
    | none => .error (.badNumber (String.ofList number))
    | some n =>
      match Text.decimal? 65535 generation with
      | none => .error (.badGeneration (String.ofList generation))
      | some g => .ok ⟨UInt32.ofNat n, UInt16.ofNat g⟩

end ObjectId

end PdfStore
