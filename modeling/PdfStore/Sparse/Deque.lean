import PdfStore.Sparse.Array

/-!
# Double-ended queues

A sequence kept in a sparse array, with values added and removed at both ends.
-/

namespace PdfStore

structure Deque (α : Type) where
  items : SparseArray α

namespace Deque

variable {α : Type}

def ofCluster (cluster : Nat) : Except SparseError (Deque α) := (SparseArray.ofCluster cluster).map mk

def size (q : Deque α) : Nat := q.items.size

def isEmpty (q : Deque α) : Bool := q.items.isEmpty

def debug (q : Deque α) : String := s!"SparseStack \x7b items: {q.items.debug} \x7d"

def onItems {β : Type} (x : Operation SparseError (SparseArray α) β) : Operation SparseError (Deque α) β :=
  Operation.onPart items (fun _ a => ⟨a⟩) (fun e => e) x

variable [Inhabited α]

def front? (q : Deque α) : Option α := q.items.get? 0

def back? (q : Deque α) : Option α := if q.items.isEmpty then none else q.items.get? (q.size - 1)

def toList (q : Deque α) : List α := q.items.toList

/-! ## The array operations behind them -/

/-- Moves the elements at positions `0` to `n - 1` one place up, the last one first. -/
def shiftUp : Nat → Operation SparseError (SparseArray α) Unit
  | 0 => pure ()
  | n + 1 => do
    let v ← SparseArray.take n
    let _ ← SparseArray.put (n + 1) v
    shiftUp n

/-- Moves `n` elements from position `i + 1` on one place down, the first one first. -/
def shiftDown : Nat → Nat → Operation SparseError (SparseArray α) Unit
  | _, 0 => pure ()
  | i, n + 1 => do
    let v ← SparseArray.take (i + 1)
    let _ ← SparseArray.put i v
    shiftDown (i + 1) n

/-! ## Operations -/

def pushBack (v : α) : Operation SparseError (Deque α) Unit := do
  let n := (← get).size
  onItems do
    SparseArray.resize (n + 1)
    let _ ← SparseArray.put n v

def pushFront (v : α) : Operation SparseError (Deque α) Unit := do
  let n := (← get).size
  onItems do
    SparseArray.resize (n + 1)
    shiftUp n
    let _ ← SparseArray.put 0 v

def popBack : Operation SparseError (Deque α) (Option α) := do
  match (← get).size with
  | 0 => return none
  | n + 1 => onItems do
    let v ← SparseArray.take n
    SparseArray.resize n
    return some v

def popFront : Operation SparseError (Deque α) (Option α) := do
  match (← get).size with
  | 0 => return none
  | n + 1 => onItems do
    let v ← SparseArray.take 0
    shiftDown 0 n
    SparseArray.resize n
    return some v

end Deque

end PdfStore
