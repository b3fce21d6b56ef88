import PdfStore.Config
import PdfStore.Object.Written
import PdfStore.Output
import PdfStore.Table.Basic

/-!
# Stores

A store gives out identities, appends the bodies of objects to its output and keeps the objects. An
object is written once, or written again on purpose; an identity that is deleted names nothing any more.
-/

namespace PdfStore

inductive StoreError
  | table (cause : TableError)
  | doubleWrite (id : ObjectId)
  | notWritten (id : ObjectId)
  | missingCatalog
  | unwritten (count : Nat) (first : ObjectId)
  | unsupported (path : String)
  | config (cause : ConfigError)
  | object (cause : ObjectError)
  | device

def StoreError.message : StoreError → String
  | table cause => cause.message
  | doubleWrite id => s!"{id.token} already written"
  | notWritten id => s!"{id.token} has no payload"
  | missingCatalog => "no catalog set"
  | unwritten count first => s!"{count} reserved object(s) never written, first {first.token}"
  | unsupported path => s!"unsupported: opening existing store {path}"
  | config cause => cause.message
  | object cause => s!"object error: {cause.message}"
  | device => "I/O error"

structure Payload where
  object : Object
  length : Nat

structure Store where
  config : Config
  table : Table
  output : OutputCursor
  payloads : OrderedMap UInt32 Payload
  catalog : Option ObjectId
  info : Option ObjectId

namespace Store

/-- A new store, its header written. -/
def create (device : Device) (config : Config) : Except StoreError Store :=
  match OutputCursor.create? device with
  | none => .error .device
  | some output => do
    config.validate.mapError .config
    let table ← (Table.ofCluster config.clusterSize config.maxGeneration).mapError .table
    match OutputCursor.append config.header output with
    | .error _ _ => .error .device
    | .ok _ output => .ok ⟨config, table, output, .empty, none, none⟩

/-- Files are written and never read back. -/
def openExisting (path : String) : Except StoreError Store := .error (.unsupported path)

def position (s : Store) : Nat := s.output.position

def slot? (s : Store) (n : Nat) : Option Slot := s.table.slot? n

def validate (s : Store) (id : ObjectId) : Except StoreError Slot := (s.table.validate id).mapError .table

/-- Whether an identity is in use and has a body. -/
def isWritten (s : Store) (id : ObjectId) : Bool :=
  match s.table.validate id with
  | .ok slot => !slot.isPending
  | .error _ => false

def payload (s : Store) (id : ObjectId) : Except StoreError Payload :=
  match s.payloads.get? id.number with
  | none => .error (.notWritten id)
  | some p => .ok p

def resolve (s : Store) (id : ObjectId) : Except StoreError Object := do
  let _ ← s.validate id
  return (← s.payload id).object

def debugOption : Option ObjectId → String
  | none => "None"
  | some id => s!"Some({id.debug})"

def debug (s : Store) : String :=
  s!"ObjectStore \x7b slots: {s.table.size}, position: {s.position}, " ++
    s!"catalog: {debugOption s.catalog}, info: {debugOption s.info} \x7d"

/-! ## Operations -/

def onTable {α : Type} (x : Operation TableError Table α) : Operation StoreError Store α :=
  Operation.onPart Store.table (fun s t => { s with table := t }) .table x

def onOutput {α : Type} (x : Operation Unit OutputCursor α) : Operation StoreError Store α :=
  Operation.onPart Store.output (fun s o => { s with output := o }) (fun _ => .device) x

def reserve : Operation StoreError Store ObjectId := onTable Table.reserve

/-- Frees an identity. The catalog or the info that it names is gone with it. -/
def delete (id : ObjectId) : Operation StoreError Store Release := do
  let outcome ← onTable (Table.release id)
  modify fun s =>
    { s with
      payloads := s.payloads.erase id.number
      catalog := if s.catalog = some id then none else s.catalog
      info := if s.info = some id then none else s.info }
  return outcome

/-- An object between the lines that name it and end it. -/
def body (id : ObjectId) (content : Bytes) : Bytes :=
  Bytes.ofString (id.header ++ "\n") ++ content ++ Bytes.ofString "\nendobj\n"

/-- Adds bytes to the output and answers where they begin. -/
def append (b : Bytes) : Operation StoreError Store Nat := onOutput (OutputCursor.append b)

/-- Writes a body and records where it is. Nothing is written of an object that cannot be written whole. -/
def appendBody (id : ObjectId) (object : Object) (refs : ReferenceTable) :
    Operation StoreError Store Nat := do
  let content ← Operation.ofExcept .object (object.toBytes (some refs))
  let b := body id content
  let offset ← append b
  onTable (Table.setOffset id offset)
  modify fun s => { s with payloads := s.payloads.insert id.number ⟨object, b.length⟩ }
  return offset

def checked (id : ObjectId) : Operation StoreError Store Slot := do
  Operation.ofExcept (fun e => e) ((← get).validate id)

/-- Writes an object for the first time and answers where its body begins. -/
def writeAt (id : ObjectId) (object : Object) (refs : ReferenceTable) : Operation StoreError Store Nat := do
  let slot ← checked id
  if !slot.isPending then throw (.doubleWrite id)
  appendBody id object refs

/-- Writes an object, for the first time or again. -/
def replaceAt (id : ObjectId) (object : Object) (refs : ReferenceTable) : Operation StoreError Store Nat := do
  let _ ← checked id
  appendBody id object refs

/-- Writes an object under a new identity, which stays given out if the object cannot be written. -/
def write (object : Object) (refs : ReferenceTable) : Operation StoreError Store ObjectId := do
  let id ← reserve
  let _ ← writeAt id object refs
  return id

/-- Reads the body of an identity back from the output. -/
def readBack (id : ObjectId) : Operation StoreError Store Bytes := do
  let slot ← checked id
  let p ← Operation.ofExcept (fun e => e) ((← get).payload id)
  onOutput (OutputCursor.readAt slot.offset p.length)

/-- What reading back answers. -/
def readRaw (s : Store) (id : ObjectId) : Except StoreError Bytes := (readBack id).outcome s

def setCatalog (id : ObjectId) : Operation StoreError Store Unit := do
  let _ ← checked id
  modify fun s => { s with catalog := some id }

def setInfo (id : ObjectId) : Operation StoreError Store Unit := do
  let _ ← checked id
  modify fun s => { s with info := some id }

end Store

end PdfStore
