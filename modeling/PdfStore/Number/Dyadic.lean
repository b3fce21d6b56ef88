/-!
# The exact value of a real

A finite real is a sign and `mantissa * 2 ^ exponent` with natural `mantissa`. Everything that is
written about a real is computed from these in exact arithmetic.
-/

namespace PdfStore

structure Dyadic where
  negative : Bool
  mantissa : Nat
  exponent : Int
deriving DecidableEq, Repr

namespace Dyadic

/-- The value of a finite real, read off its bits. -/
def ofFloat (x : Float) : Dyadic :=
  let bits := x.toBits.toNat
  let negative := bits / Nat.pow 2 63 == 1
  let exponent : Nat := bits / Nat.pow 2 52 % 2048
  let fraction : Nat := bits % Nat.pow 2 52
  if exponent == 0 then ⟨negative, fraction, -1074⟩
  else ⟨negative, Nat.pow 2 52 + fraction, (exponent : Int) - 1075⟩

/-- Whether the gap to the next smaller magnitude is half the gap to the next larger one. -/
def narrowBelow (d : Dyadic) : Bool := d.mantissa == Nat.pow 2 52 && d.exponent > -1074

end Dyadic

/-- The quotient rounded to the nearest natural number, a half to the even neighbour. -/
def roundDiv (num den : Nat) : Nat :=
  let q := num / den
  match compare (2 * (num % den)) den with
  | .lt => q
  | .gt => q + 1
  | .eq => if q % 2 = 0 then q else q + 1

end PdfStore
