/-!
# Handles

A reference and a store are named inside a session by their place in its arenas. Copies of a handle
name the same thing.
-/

namespace PdfStore

/-- A deferred object, the same one in whatever stores it is bound. -/
structure Reference where
  index : Nat
deriving DecidableEq, Repr, Inhabited

/-- A store of a session. -/
structure StoreId where
  index : Nat
deriving DecidableEq, Repr, Inhabited

/-- Stores are in the order in which they were opened. -/
instance : Ord StoreId := ⟨fun a b => compare a.index b.index⟩

instance : Std.TransOrd StoreId where
  eq_swap := Std.OrientedOrd.eq_swap (α := Nat)
  isLE_trans := Std.TransOrd.isLE_trans (α := Nat)

instance : Std.LawfulEqOrd StoreId where
  compare_self := Nat.compare_eq_eq.2 rfl
  eq_of_compare {a b} h := by
    cases a; cases b
    exact congrArg StoreId.mk (Nat.compare_eq_eq.1 h)

def Reference.debug (r : Reference) : String := s!"IndirectRef(#{r.index})"

def StoreId.debug (s : StoreId) : String := s!"StoreId(#{s.index})"

def StoreId.text (s : StoreId) : String := s!"store#{s.index}"

end PdfStore
