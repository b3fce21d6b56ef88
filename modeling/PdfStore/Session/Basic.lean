import PdfStore.Codec.Zlib
import PdfStore.Session.Bindings
import PdfStore.Store.Close

/-!
# Sessions

A session holds stores and references. A store that is closed leaves its place empty, so a handle never
comes to name another store.
-/

namespace PdfStore

structure Session where
  stores : List (Option Store)
  bindings : Bindings
  filters : Registry

namespace Session

def ofFilters (filters : Registry) : Session := ⟨[], .empty, filters⟩

def store? (s : Session) (i : StoreId) : Option Store := s.stores[i.index]?.join

def isOpen (s : Session) (i : StoreId) : Bool := (s.store? i).isSome

def store (s : Session) (i : StoreId) : Except SessionError Store :=
  match s.store? i with
  | some st => .ok st
  | none => .error (.storeClosed i)

def openStores (s : Session) : List StoreId :=
  ((List.range s.stores.length).map StoreId.mk).filter s.isOpen

/-- The identities that the references have in an open store. -/
def table (s : Session) (i : StoreId) : Except SessionError ReferenceTable := do
  let _ ← s.store i
  return s.bindings.view i

def setStore (s : Session) (i : StoreId) (st : Option Store) : Session :=
  { s with stores := s.stores.set i.index st }

/-! ## Operations on parts -/

/-- An answer that leaves the session as it is. -/
def look {α : Type} (f : Session → Except SessionError α) : Operation SessionError Session α := do
  Operation.ofExcept (fun e => e) (f (← get))

def onStore {α : Type} (i : StoreId) (x : Operation StoreError Store α) : Operation SessionError Session α :=
  fun s =>
    match s.store? i with
    | none => .error (.storeClosed i) s
    | some st =>
      match x st with
      | .ok a st => .ok a (s.setStore i (some st))
      | .error e st => .error (.store e) (s.setStore i (some st))

def onBindings {α : Type} (x : Operation SessionError Bindings α) : Operation SessionError Session α :=
  Operation.onPart Session.bindings (fun s t => { s with bindings := t }) (fun e => e) x

/-! ## Opening stores and making references -/

def openStore (st : Store) : Operation SessionError Session StoreId := do
  let s ← get
  let n := s.stores.length
  if maxHandles ≤ n then throw (.arenaFull "store")
  set { s with stores := s.stores ++ [some st] }
  return ⟨n⟩

def createStore (device : Device) (config : Config) : Operation SessionError Session StoreId := do
  openStore (← Operation.ofExcept .store (Store.create device config))

def newReference : Operation SessionError Session Reference := onBindings Bindings.create

def binding (s : Session) (r : Reference) : Except SessionError Binding := s.bindings.get r

/-- The written form of a reference in a store; that of the sentinel in none. -/
def token (r : Reference) (place : Option StoreId) (s : Session) : Except SessionError Bytes := do
  let _ ← s.binding r
  let refs ← match place with
    | none => pure none
    | some i => some <$> s.table i
  ((Object.indirect r).toBytes refs).mapError .object

end Session

end PdfStore
