import PdfStore.Session.Transfer

/-!
# Writing and deleting through references

Writing a reference writes its object to every store it is bound to. The first store written is its
source; when the source is deleted, another store that holds the object takes its place.
-/

namespace PdfStore.Session

/-- Writes an object to all stores of a reference. -/
def write (r : Reference) (object : Object) : Operation SessionError Session Unit := do
  let b ← look (·.binding r)
  match b.identities.entries with
  | [] => throw (.unboundReference r)
  | (first, id) :: rest =>
    ((first, id) :: rest).forM fun (i, id) => drain i [⟨id, object⟩]
    let b ← look (·.binding r)
    if b.source.isNone then onBindings (Bindings.setSource r (some first))

/-- A new reference that is bound to a store, and written. It stays bound if the object cannot be written. -/
def writeNew (i : StoreId) (object : Object) : Operation SessionError Session Reference := do
  let r ← newReferenceIn [i]
  write r object
  return r

/-- Makes the first store that holds the object of a reference its source; whether there is one. -/
def adoptSource (r : Reference) : Operation SessionError Session Bool := do
  let b ← look (·.binding r)
  let s ← get
  let holder := b.identities.entries.find? fun (i, id) => (s.store? i).any (·.isWritten id)
  onBindings (Bindings.setSource r (holder.map Prod.fst))
  return holder.isSome

/-- Deletes the object of a reference from a store, to which it is bound no more. -/
def delete (r : Reference) (i : StoreId) : Operation SessionError Session Release := do
  let b ← look (·.binding r)
  match b.identity? i with
  | none => throw (.notBound r i)
  | some id =>
    let outcome ← onStore i (Store.delete id)
    let _ ← onBindings (Bindings.unbind r i)
    let b ← look (·.binding r)
    if b.source.isNone then
      let _ ← adoptSource r
    return outcome

def setCatalog (i : StoreId) (r : Reference) : Operation SessionError Session Unit := do
  let id ← identityFor r i
  onStore i (Store.setCatalog id)

def setInfo (i : StoreId) (r : Reference) : Operation SessionError Session Unit := do
  let id ← identityFor r i
  onStore i (Store.setInfo id)

/-- Closes a store. The references lose it, and those that had it as their source take another one,
also if the device fails at the end. -/
def close (i : StoreId) : Operation SessionError Session CloseReport := do
  let st ← look (·.store i)
  Operation.ofExcept .store st.checkClosable
  modify (·.setStore i none)
  let (affected, bindings) := Bindings.dropStore i (← get).bindings
  modify fun s => { s with bindings := bindings }
  affected.forM fun (r, wasSource) => do
    if wasSource then
      let _ ← adoptSource r
  Operation.ofExcept .store st.close

/-- Adds a codec; the one of its name before. -/
def register (c : Codec) (s : Session) : Option Codec × Session :=
  (s.filters.get? c.name, { s with filters := s.filters.register c })

end PdfStore.Session
