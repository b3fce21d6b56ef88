import PdfStore.Session.Basic

/-!
# Following references

The object of a reference is in its source. If it is a reference again, that one is followed, until the
object is none or a reference comes back. A reference is followed once, so the references not yet
followed bound the search.
-/

namespace PdfStore.Session

/-- The object that the source of a reference holds. -/
def sourceObject (s : Session) (r : Reference) : Except SessionError Object := do
  let b ← s.binding r
  match b.origin? with
  | none => throw (.noSource r)
  | some (i, id) => (← s.store i).resolve id |>.mapError .store

/-- Follows a reference; only those in `unvisited` have not been followed yet. -/
def follow (s : Session) (unvisited : List Reference) (r : Reference) : Except SessionError Object :=
  if _h : r ∈ unvisited then do
    match ← s.sourceObject r with
    | .indirect next => follow s (unvisited.erase r) next
    | o => .ok o
  else do
    let _ ← s.binding r
    .error (.cyclicReference r)
termination_by unvisited.length
decreasing_by
  rw [List.length_erase_of_mem _h]
  have := List.length_pos_of_mem _h
  omega

/-- The object at the end of a chain of references. -/
def dereference (s : Session) (r : Reference) : Except SessionError Object :=
  s.follow s.bindings.references r

/-- The object itself, or that at the end of the chain if it is a reference. -/
def dereferenceObject (s : Session) : Object → Except SessionError Object
  | .indirect r => s.dereference r
  | o => .ok o

end PdfStore.Session
