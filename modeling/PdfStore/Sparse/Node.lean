/-!
# Nodes of a sparse array

A node of height zero is a leaf, a list of cells; a higher node is a list of optional children, each one
lower. With `c` places in every list a node of height `h` stands for `Node.span c h` positions, `c` to
the power `h + 1`. A cell beyond the end of its list, or below a child that is missing, holds the
default value.
-/

namespace PdfStore.SparseArray

def Node (α : Type) : Nat → Type
  | 0 => List α
  | h + 1 => List (Option (Node α h))

namespace Node

/-- The number of positions below a node of height `h`. -/
def span (c h : Nat) : Nat := Nat.pow c (h + 1)

theorem span_succ (c h : Nat) : span c (h + 1) = span c h * c := rfl

theorem span_pos {c : Nat} (hc : 0 < c) (h : Nat) : 0 < span c h := Nat.pow_pos hc

variable {α : Type}

/-- A node without a stored cell. -/
def empty : (h : Nat) → Node α h
  | 0 => ([] : List α)
  | h + 1 => ([] : List (Option (Node α h)))

/-- A node one higher that holds `node` as its first child. -/
def above {h : Nat} (node : Node α h) : Node α (h + 1) := ([some node] : List (Option (Node α h)))

/-- The child at a place of a node's list. -/
def child? {h : Nat} (place : Nat) (node : Node α (h + 1)) : Option (Node α h) :=
  (show List (Option (Node α h)) from node)[place]?.join

/-- The stored cell at a position. -/
def get? (c : Nat) : (h : Nat) → Nat → Node α h → Option α
  | 0, i, cells => (show List α from cells)[i]?
  | h + 1, i, node => (node.child? (i / span c h)).bind (get? c h (i % span c h))

def total : List Nat → Nat
  | [] => 0
  | n :: rest => n + total rest

def leaves : (h : Nat) → Node α h → Nat
  | 0, _ => 1
  | h + 1, children =>
    total ((show List (Option (Node α h)) from children).map fun
      | none => 0
      | some child => leaves h child)

/-- Changes the cell at a position, adding the nodes on the way to it. -/
def update [Inhabited α] (c : Nat) (f : α → α) : (h : Nat) → Nat → Node α h → Node α h
  | 0, i, cells => ((show List α from cells).rightpad (i + 1) default).modify i f
  | h + 1, i, children =>
    let place := i / span c h
    ((show List (Option (Node α h)) from children).rightpad (place + 1) none).modify place fun child =>
      some (update c f h (i % span c h) (child.getD (empty h)))

/-- The node cut down to its first `n` positions; nothing is left of it when there are none. -/
def keep (c : Nat) : (h : Nat) → Nat → Node α h → Option (Node α h)
  | _, 0, _ => none
  | 0, n + 1, cells => some ((show List α from cells).take (n + 1))
  | h + 1, n + 1, children =>
    let place := n / span c h
    some (((show List (Option (Node α h)) from children).take (place + 1)).modify place fun child =>
      child.bind (keep c h (n + 1 - place * span c h)))

end Node

end PdfStore.SparseArray
