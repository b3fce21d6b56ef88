import PdfStore.Store.Basic
import PdfStore.Table.Segments

/-!
# Closing a store

A store that has a catalog and no identity without a body can be closed: its table and a trailer that
names the catalog are appended, and the output is complete.
-/

namespace PdfStore

structure CloseReport where
  size : Nat
  segments : Nat
  offset : Nat
  output : Output

namespace Store

/-- What a store lacks to be closed. -/
def checkClosable (s : Store) : Except StoreError Unit :=
  match s.catalog with
  | none => .error .missingCatalog
  | some _ =>
    match s.table.pending with
    | [] => .ok ()
    | first :: rest => .error (.unwritten (rest.length + 1) first)

/-- The text behind the table, which stands at `offset`. -/
def trailer (size : Nat) (catalog : ObjectId) (info : Option ObjectId) (offset : Nat) : String :=
  s!"trailer\n<</Size {size} /Root {catalog.token}" ++
    (match info with
      | none => ""
      | some id => s!" /Info {id.token}") ++
    s!">>\nstartxref\n{offset}\n%%EOF\n"

/-- Appends the table and the trailer, and ends the output. -/
def finish (catalog : ObjectId) : Operation StoreError Store CloseReport := do
  let s ← get
  let offset ← append (Bytes.ofString s.table.written)
  let _ ← append (Bytes.ofString (trailer s.table.size catalog s.info offset))
  let output ← onOutput OutputCursor.finish
  return ⟨s.table.size, s.table.segments.length, offset, output⟩

def close (s : Store) : Except StoreError CloseReport := do
  s.checkClosable
  match s.catalog with
  | none => .error .missingCatalog
  | some catalog => return (← (finish catalog).answer? s).1

end Store

end PdfStore
