/-!
# TOML tables

A document is a table of values, tables and arrays of tables. Headers and dotted keys add to it, and no
table is defined twice: what a header opens, a dotted key of another table cannot enter, and a table
written as a value is closed.
-/

namespace PdfStore.Toml

/-- The values that can be told apart; dates, floats, arrays and tables written as values are alike. -/
inductive Value
  | text (s : String)
  | integer (n : Int)
  | boolean (b : Bool)
  | other
deriving DecidableEq, Repr

/-- What brought a table about. -/
inductive Origin
  /-- A header of its own. -/
  | header
  /-- The header of a table inside it. -/
  | implied
  /-- A dotted key. -/
  | dotted
deriving DecidableEq, Repr

inductive Item
  | value (v : Value)
  | table (origin : Origin) (entries : List (String × Item))
  /-- Of the tables in an array only the last can be added to. -/
  | tables (last : List (String × Item))

structure Table where
  origin : Origin
  entries : List (String × Item)

namespace Table

def empty : Table := ⟨.header, []⟩

def get? (t : Table) (k : String) : Option Item := t.entries.lookup k

def put (t : Table) (k : String) (item : Item) : Table :=
  ⟨t.origin, (k, item) :: t.entries.filter (·.1 ≠ k)⟩

/-- Changes the table that a path leads to. Tables missing on the way have the origin `missing`; a
dotted key enters no table that has a header. -/
def change (missing : Origin) (f : Table → Option Table) : List String → Table → Option Table
  | [], t => f t
  | k :: path, t =>
    match t.get? k with
    | none => do
      let child ← change missing f path ⟨missing, []⟩
      some (t.put k (.table child.origin child.entries))
    | some (.value _) => none
    | some (.tables last) => do
      let child ← change missing f path ⟨.header, last⟩
      some (t.put k (.tables child.entries))
    | some (.table origin entries) =>
      if missing = .dotted && origin = .header then none
      else do
        let child ← change missing f path ⟨origin, entries⟩
        some (t.put k (.table child.origin child.entries))

/-- A path of keys as the way to the last one, and that key. -/
def lastKey? (path : List String) : Option (List String × String) :=
  path.getLast?.map fun k => (path.dropLast, k)

/-- Gives a new key of dotted parts its value. -/
def define (path : List String) (v : Value) (t : Table) : Option Table := do
  let (way, k) ← lastKey? path
  t.change .dotted (fun owner =>
    if decide (owner.origin = .dotted) == way.isEmpty || (owner.get? k).isSome then none
    else some (owner.put k (.value v))) way

def openTable (path : List String) (t : Table) : Option Table := do
  let (way, k) ← lastKey? path
  t.change .implied (fun owner =>
    match owner.get? k with
    | none => some (owner.put k (.table .header []))
    | some (.table .implied entries) => some (owner.put k (.table .header entries))
    | _ => none) way

/-- Opens another table of an array under a header. -/
def openElement (path : List String) (t : Table) : Option Table := do
  let (way, k) ← lastKey? path
  t.change .implied (fun owner =>
    match owner.get? k with
    | none | some (.tables _) => some (owner.put k (.tables []))
    | _ => none) way

end Table

/-- One line of a document that is not empty. -/
inductive Line
  | header (path : List String)
  | element (path : List String)
  | entry (path : List String) (v : Value)

/-- The document of lines, the entries of which belong to the table opened at `place`. -/
def document (place : List String) (t : Table) : List Line → Option Table
  | [] => some t
  | .header path :: rest => do document path (← t.openTable path) rest
  | .element path :: rest => do document path (← t.openElement path) rest
  | .entry path v :: rest => do
    document place (← t.change .implied (Table.define path v) place) rest

end PdfStore.Toml
