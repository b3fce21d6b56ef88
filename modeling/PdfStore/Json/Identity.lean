import PdfStore.Identity
import PdfStore.Json.Basic

/-!
# Identities and handles in JSON

An identity is an object with the fields `number` and `generation`, once each and in any order, beside
other fields that do not count; or an array of the two. A handle is its number.
-/

namespace PdfStore

namespace Json

def natural? (limit : Nat) : Json → Option Nat
  | natural n => if n ≤ limit then some n else none
  | _ => none

/-- The value of the only field of a name. -/
def field? (fields : List (Option String × Json)) (name : String) : Option Json :=
  match fields.filter (·.1 = some name) with
  | [(_, v)] => some v
  | _ => none

end Json

namespace ObjectId

def ofParts? (number generation : Json) : Option ObjectId := do
  let n ← number.natural? 4294967295
  let g ← generation.natural? 65535
  some ⟨UInt32.ofNat n, UInt16.ofNat g⟩

def ofJson? : Json → Option ObjectId
  | .array [number, generation] => ofParts? number generation
  | .object fields =>
    if fields.any (·.1.isNone) then none
    else do ofParts? (← Json.field? fields "number") (← Json.field? fields "generation")
  | _ => none

def toJson (id : ObjectId) : String :=
  s!"\x7b\"number\":{id.number.toNat},\"generation\":{id.generation.toNat}\x7d"

/-- The JSON text of an identity, written the usual way. -/
def normalJson? (text : String) : Option String := do return (← ofJson? (← Json.parse? text)).toJson

end ObjectId

/-- The JSON text of a handle, written the usual way. -/
def handleJson? (text : String) : Option String := do
  return toString (← (← Json.parse? text).natural? 4294967295)

end PdfStore
