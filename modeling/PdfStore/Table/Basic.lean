import PdfStore.Identity
import PdfStore.Operation
import PdfStore.Sparse.Array
import PdfStore.Table.Slot

/-!
# The cross-reference table

The table gives out identities. The slots that are free form a chain from slot zero, the latest first.
A released slot comes back at the next generation until it reaches the largest one, which retires it.
-/

namespace PdfStore

inductive TableError
  | notReserved (id : ObjectId)
  | stale (id : ObjectId) (current : UInt16)
  | full
  | array (cause : SparseError)
deriving DecidableEq, Repr

def TableError.message : TableError → String
  | notReserved id => s!"{id.token} is not reserved"
  | stale id current => s!"stale identity {id.token}: slot is at generation {current.toNat}"
  | full => "cross-reference table is full"
  | array cause => s!"table error: {cause.message}"

/-- What becomes of a slot after a release. -/
inductive Release
  | recycled (generation : UInt16)
  | retired
deriving DecidableEq, Repr

structure Table where
  slots : SparseArray Slot
  maxGeneration : UInt16

namespace Table

def size (t : Table) : Nat := t.slots.size

/-- Slot zero names no object. -/
def isEmpty (t : Table) : Bool := t.size ≤ 1

def slot? (t : Table) (n : Nat) : Option Slot := t.slots.get? n

def toList (t : Table) : List Slot := t.slots.toList

/-- The offset of a slot; that of a slot beyond the table is zero, the end of the chain. -/
def offset (t : Table) (n : Nat) : Nat := ((t.slot? n).map Slot.offset).getD 0

/-- The identities of the slots that satisfy `p`, in order. -/
def identities (t : Table) (p : Slot → Bool) : List ObjectId :=
  t.toList.zipIdx.filterMap fun (s, n) => if p s then some ⟨UInt32.ofNat n, s.generation⟩ else none

def live (t : Table) : List ObjectId := t.identities Slot.inUse

/-- The identities in use without a body. -/
def pending (t : Table) : List ObjectId := t.identities Slot.isPending

/-! ## The free chain -/

/-- At most `n` slots of the chain that goes on at `current`. -/
def chainFrom (t : Table) : Nat → Nat → List Nat
  | 0, _ => []
  | n + 1, current => if current = 0 then [] else current :: chainFrom t n (t.offset current)

/-- The free slots, the latest first. -/
def freeChain (t : Table) : List Nat := t.chainFrom t.size (t.offset 0)

/-- The slot in front of `target` in the chain after `previous`, found in at most `n` steps. -/
def predecessor? (t : Table) (target : Nat) : Nat → Nat → Option Nat
  | 0, _ => none
  | n + 1, previous =>
    let current := t.offset previous
    if current = 0 then none
    else if current = target then some previous
    else predecessor? t target n current

/-! ## Operations -/

/-- An operation on the array of slots. -/
def onSlots {α : Type} (x : Operation SparseError (SparseArray Slot) α) : Operation TableError Table α :=
  Operation.onPart Table.slots (fun t a => { t with slots := a }) .array x

/-- Changes the slot of a number and answers what it was. -/
def update (n : Nat) (f : Slot → Slot) : Operation TableError Table Slot := onSlots (SparseArray.update n f)

/-- The table with slot zero alone. -/
def ofCluster (cluster : Nat) (maxGeneration : UInt16) : Except TableError Table := do
  let slots ← (SparseArray.ofCluster cluster).mapError .array
  let ((), t) ← Operation.answer? (do
    onSlots (SparseArray.resize 1)
    let _ ← update 0 fun _ => ⟨0, maxGeneration, false, true⟩) ⟨slots, maxGeneration⟩
  return t

/-- The slot of an identity that is in use at this generation. -/
def validate (t : Table) (id : ObjectId) : Except TableError Slot :=
  match t.slot? id.number.toNat with
  | none => .error (.notReserved id)
  | some s =>
    if id.number = 0 || !s.inUse then .error (.notReserved id)
    else if s.generation ≠ id.generation then .error (.stale id s.generation)
    else .ok s

def checked (id : ObjectId) : Operation TableError Table Slot := do
  Operation.ofExcept (fun e => e) ((← get).validate id)

/-- The lowest number of a free slot that is not retired. -/
def reusable? (t : Table) : Option Nat :=
  (List.range' 1 (t.size - 1)).find? fun n =>
    match t.slot? n with
    | some s => !s.inUse && s.generation < t.maxGeneration
    | none => false

/-- Takes a slot out of the chain. -/
def unlink (n : Nat) : Operation TableError Table Unit := do
  let t ← get
  match t.predecessor? n t.size 0 with
  | none => pure ()
  | some previous =>
    let next := t.offset n
    let _ ← update previous fun s => { s with offset := next, dirty := true }

/-- Gives out an identity: the lowest free slot again, or a new one. -/
def reserve : Operation TableError Table ObjectId := do
  let t ← get
  match t.reusable? with
  | some n =>
    unlink n
    let s ← update n fun s => .reserved s.generation
    return ⟨UInt32.ofNat n, s.generation⟩
  | none =>
    let n := t.size
    if 4294967295 < n then throw .full
    onSlots (SparseArray.resize (n + 1))
    let _ ← update n fun _ => .reserved 0
    return ⟨UInt32.ofNat n, 0⟩

/-- Records where the body of an object begins. -/
def setOffset (id : ObjectId) (offset : Nat) : Operation TableError Table Unit := do
  let _ ← checked id
  let _ ← update id.number.toNat fun s => { s with offset := offset, dirty := true }

/-- Frees the slot of an identity, the first of the chain from now on. -/
def release (id : ObjectId) : Operation TableError Table Release := do
  let _ ← checked id
  let n := id.number.toNat
  let limit := (← get).maxGeneration
  let next : UInt16 := if id.generation < limit then id.generation + 1 else limit
  let head ← update 0 fun s => { s with offset := n, dirty := true }
  let _ ← update n fun _ => ⟨head.offset, next, false, true⟩
  return if next < limit then .recycled next else .retired

end Table

end PdfStore
