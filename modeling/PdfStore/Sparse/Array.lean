import PdfStore.Operation
import PdfStore.Sparse.Node

/-!
# Sparse arrays

An array of any size that stores only the leaves it has been asked for. Its capacity is a power of the
cluster size (`SparseArray.capacity`); resizing adds levels above the root or takes them off, and cells
that are cut off hold the default value when the array grows again.
-/

namespace PdfStore

inductive SparseError
  | indexOutOfRange (index size : Nat)
  | invalidClusterSize (cluster : Nat)
  | capacityOverflow (requested : Nat)
deriving DecidableEq, Repr

def SparseError.message : SparseError → String
  | indexOutOfRange index size => s!"index {index} out of range for size {size}"
  | invalidClusterSize cluster => s!"invalid cluster size {cluster}: must be at least 2"
  | capacityOverflow requested => s!"capacity overflow growing to {requested}"

structure SparseArray (α : Type) where
  cluster : Nat
  two_le_cluster : 2 ≤ cluster
  size : Nat
  height : Nat
  root : Option (SparseArray.Node α height)

namespace SparseArray

variable {α : Type}

/-- The largest capacity that a word of 64 bits can count. -/
def maxCapacity : Nat := 18446744073709551615

/-- The empty array whose nodes have `cluster` places. -/
def ofCluster (cluster : Nat) : Except SparseError (SparseArray α) :=
  if h : 2 ≤ cluster then .ok ⟨cluster, h, 0, 0, none⟩ else .error (.invalidClusterSize cluster)

def isEmpty (a : SparseArray α) : Bool := a.size == 0

def depth (a : SparseArray α) : Nat := a.height + 1

def capacity (a : SparseArray α) : Nat := Node.span a.cluster a.height

def leaves (a : SparseArray α) : Nat :=
  match a.root with
  | none => 0
  | some node => node.leaves a.height

def debug (a : SparseArray α) : String :=
  s!"SparseArray \x7b cluster: {a.cluster}, capacity: {a.capacity}, size: {a.size}, " ++
    s!"allocated_leaves: {a.leaves} \x7d"

/-! ## Resizing -/

def raise (a : SparseArray α) : SparseArray α :=
  { a with height := a.height + 1, root := a.root.map Node.above }

theorem capacity_raise (a : SparseArray α) : a.raise.capacity = a.capacity * a.cluster :=
  Node.span_succ a.cluster a.height

theorem capacity_lt_capacity_raise (a : SparseArray α) : a.capacity < a.raise.capacity := by
  have h := a.two_le_cluster
  have hp : 0 < a.capacity := Node.span_pos (by omega) a.height
  rw [capacity_raise]
  exact Nat.lt_of_lt_of_le (by omega) (Nat.mul_le_mul_left a.capacity h)

/-- Adds levels until `n` positions have room. What has been added before the capacity becomes too large
stays. -/
def grow (n : Nat) : Operation SparseError (SparseArray α) Unit := fun a =>
  if a.capacity < n then
    if a.raise.capacity ≤ maxCapacity then grow n a.raise else .error (.capacityOverflow n) a
  else .ok () a
termination_by a => n - a.capacity
decreasing_by
  have := capacity_lt_capacity_raise ‹SparseArray α›
  omega

/-- Takes off levels above the root of a tree as long as its first child has room for `n` positions. -/
def lowered (c n : Nat) : (h : Nat) → Option (Node α h) → (h : Nat) × Option (Node α h)
  | 0, root => ⟨0, root⟩
  | h + 1, root => if n ≤ Node.span c h then lowered c n h (root.bind (Node.child? 0)) else ⟨h + 1, root⟩

/-- The array with as few levels as `n` positions need. -/
def lower (n : Nat) (a : SparseArray α) : SparseArray α :=
  let t := lowered a.cluster n a.height a.root
  { a with height := t.1, root := t.2 }

/-- The array with all cells from position `n` on back at the default. -/
def cut (n : Nat) (a : SparseArray α) : SparseArray α :=
  { a with root := a.root.bind (Node.keep a.cluster a.height n) }

/-- Makes the array `n` elements long: elements past `n` are lost, new ones hold the default. -/
def resize (n : Nat) : Operation SparseError (SparseArray α) Unit := do
  grow n
  modify (lower n)
  modify fun a => { (if n < a.size then a.cut n else a) with size := n }

/-! ## Reading and writing cells -/

variable [Inhabited α]

/-- The value at a position, whether or not it lies in the array. -/
def cell (a : SparseArray α) (i : Nat) : α :=
  (a.root.bind (Node.get? a.cluster a.height i)).getD default

def get? (a : SparseArray α) (i : Nat) : Option α := if i < a.size then some (a.cell i) else none

def toList (a : SparseArray α) : List α := (List.range a.size).map a.cell

/-- Changes the element at `i`, storing its leaf, and answers what was there. -/
def update (i : Nat) (f : α → α) : Operation SparseError (SparseArray α) α := fun a =>
  if i < a.size then
    let node := a.root.getD (Node.empty a.height)
    .ok (a.cell i) { a with root := some (node.update a.cluster f a.height i) }
  else .error (.indexOutOfRange i a.size) a

/-- The element at `i`, whose leaf is stored from now on. -/
def touch (i : Nat) : Operation SparseError (SparseArray α) α := update i id

def put (i : Nat) (v : α) : Operation SparseError (SparseArray α) α := update i fun _ => v

def take (i : Nat) : Operation SparseError (SparseArray α) α := put i default

end SparseArray

end PdfStore
