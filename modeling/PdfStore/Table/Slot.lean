import PdfStore.Number.Fixed

/-!
# Slots

A slot of the cross-reference table is in use, at the offset of an object's body, or free, with the
number of the next free slot in the place of an offset. An offset of zero means that no body has been
written. The line of a slot has columns of fixed width.
-/

namespace PdfStore

structure Slot where
  offset : Nat
  generation : UInt16
  inUse : Bool
  dirty : Bool
deriving DecidableEq, Repr

namespace Slot

instance : Inhabited Slot := ⟨⟨0, 0, false, false⟩⟩

/-- A slot given out at a generation, without a body. -/
def reserved (generation : UInt16) : Slot := ⟨0, generation, true, true⟩

/-- In use, and not yet written. -/
def isPending (s : Slot) : Bool := s.inUse && s.offset == 0

/-- Offset, generation and kind, twenty characters with the line end. -/
def line (s : Slot) : String :=
  String.ofList (paddedDigits 10 s.offset ++ ' ' :: paddedDigits 5 s.generation.toNat ++
    [' ', if s.inUse then 'n' else 'f', ' ', '\n'])

end Slot

end PdfStore
