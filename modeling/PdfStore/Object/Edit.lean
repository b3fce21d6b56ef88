import PdfStore.Object.Stream

/-!
# Edits in place

An edit changes an object and answers a value. It does not apply to every object: there may be nothing
at the place it works on, or something of another kind. Edits of a part are edits of the whole.
-/

namespace PdfStore

abbrev Edit (α : Type) := StateT Object Option α

/-- A step into an object: an item of an array, or an entry of a dictionary or of a stream's dictionary. -/
inductive Segment
  | index (i : Nat)
  | key (k : Name)
deriving DecidableEq, Repr

namespace Object

/-- The entries of a dictionary or of a stream's dictionary. -/
def entries? : Object → Option Dictionary
  | dictionary entries => some entries
  | stream entries _ => some entries
  | _ => none

def child? : Segment → Object → Option Object
  | .index i, o => o.array?.bind (·[i]?)
  | .key k, o => o.entries?.bind (·.get? k)

def at? : List Segment → Object → Option Object
  | [], o => some o
  | s :: path, o => (o.child? s).bind (at? path)

end Object

namespace Edit

variable {α : Type}

def items (x : StateM (List Object) α) : Edit α
  | .array l => let (a, l) := x l; some (a, .array l)
  | _ => none

def dictionary (x : StateM Dictionary α) : Edit α
  | .dictionary d => let (a, d) := x d; some (a, .dictionary d)
  | _ => none

def stream (x : StateM Stream α) : Edit α
  | .stream d data => let (a, s) := x ⟨d, data⟩; some (a, s.toObject)
  | _ => none

/-- Edits the entries of a dictionary or of a stream's dictionary. -/
def entries (x : StateM Dictionary α) : Edit α
  | .stream d data => let (a, d) := x d; some (a, .stream d data)
  | o => dictionary x o

/-- Puts a child in the place of the one a segment leads to. -/
def setChild (o : Object) (child : Object) : Segment → Object
  | .index i =>
    match o with
    | .array l => .array (l.set i child)
    | o => o
  | .key k =>
    match o with
    | .dictionary d => .dictionary (d.insert k child)
    | .stream d data => .stream (d.insert k child) data
    | o => o

/-- An edit of the object that a segment leads to. -/
def inside (s : Segment) (e : Edit α) : Edit α := fun o => do
  let child ← o.child? s
  let (a, child) ← e child
  some (a, setChild o child s)

def along (path : List Segment) (e : Edit α) : Edit α := path.foldr inside e

/-- Puts another object in the place and answers the one that was there. -/
def replace (new : Object) : Edit Object := fun old => some (old, new)

end Edit

/-! ## Arrays -/

namespace Items

def push (o : Object) : StateM (List Object) Nat := fun l => (l.length + 1, l ++ [o])

/-- Adds an item in front of the one at `i`; whether there is such a place. -/
def insert (i : Nat) (o : Object) : StateM (List Object) Bool := fun l =>
  if i ≤ l.length then (true, l.insertIdx i o) else (false, l)

def set (i : Nat) (o : Object) : StateM (List Object) (Option Object) := fun l => (l[i]?, l.set i o)

def remove (i : Nat) : StateM (List Object) (Option Object) := fun l => (l[i]?, l.eraseIdx i)

end Items

/-! ## Dictionaries -/

namespace Entries

/-- Puts a value under a key and answers the one it replaces. -/
def put (k : Name) (o : Object) : StateM Dictionary (Option Object) := fun d => (d.get? k, d.insert k o)

def remove (k : Name) : StateM Dictionary (Option Object) := fun d => (d.get? k, d.erase k)

end Entries

end PdfStore
