import PdfStore.Table.Basic

/-!
# Segments

The section of the table in a file lists the slots that have changed, run by run: the number of the
first slot, how many there are, and a line for each.
-/

namespace PdfStore

structure SlotRun where
  first : Nat
  length : Nat
deriving DecidableEq, Repr

/-- The maximal runs of marks that are set; the first mark has number `n`. -/
def SlotRun.ofMarks (n : Nat) : List Bool → List SlotRun
  | [] => []
  | false :: marks => ofMarks (n + 1) marks
  | true :: marks =>
    match ofMarks (n + 1) marks with
    | [] => [⟨n, 1⟩]
    | r :: rest => if r.first = n + 1 then ⟨n, r.length + 1⟩ :: rest else ⟨n, 1⟩ :: r :: rest

namespace Table

/-- The runs of slots that have changed. -/
def segments (t : Table) : List SlotRun := SlotRun.ofMarks 0 (t.toList.map Slot.dirty)

def segmentText (t : Table) (r : SlotRun) : String :=
  s!"{r.first} {r.length}\n" ++
    String.join ((List.range' r.first r.length).map fun n => ((t.slot? n).getD default).line)

def written (t : Table) : String := "xref\n" ++ String.join (t.segments.map t.segmentText)

end Table

end PdfStore
