import PdfStore.Handle
import PdfStore.Store.Basic

/-!
# Errors of sessions
-/

namespace PdfStore

inductive SessionError
  | store (cause : StoreError)
  | object (cause : ObjectError)
  | unknownReference (r : Reference)
  | unboundReference (r : Reference)
  | notBound (r : Reference) (s : StoreId)
  | noSource (r : Reference)
  | cyclicReference (r : Reference)
  | storeClosed (s : StoreId)
  /-- No more handles of a kind can be given out. -/
  | arenaFull (kind : String)

def SessionError.message : SessionError → String
  | store cause => s!"store error: {cause.message}"
  | object cause => s!"object error: {cause.message}"
  | unknownReference r => s!"unknown reference {r.debug}"
  | unboundReference r => s!"{r.debug} is not bound to any store"
  | notBound r s => s!"{r.debug} is not bound to {s.text}"
  | noSource r => s!"{r.debug} has no source store"
  | cyclicReference r => s!"reference cycle through {r.debug}"
  | storeClosed s => s!"{s.text} is closed"
  | arenaFull kind => s!"{kind} arena is full"

/-- The most handles of one kind. -/
def maxHandles : Nat := 4294967296

end PdfStore
