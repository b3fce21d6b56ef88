import PdfStore.Number.Dyadic

/-!
# Reals in plain decimal notation

A real is written as the multiple of a millionth nearest to it, a half going to the even neighbour,
without an exponent and without digits that do not change its value. A value that rounds to zero is
written `0`.
-/

namespace PdfStore

/-- The magnitude in millionths, rounded. -/
def Dyadic.millionths (d : Dyadic) : Nat :=
  match d.exponent with
  | .ofNat e => d.mantissa * Nat.pow 2 e * 1000000
  | .negSucc e => roundDiv (d.mantissa * 1000000) (Nat.pow 2 (e + 1))

/-- A number in decimal digits, with zeros in front up to a width. -/
def paddedDigits (width n : Nat) : List Char :=
  let ds := Nat.toDigits 10 n
  List.replicate (width - ds.length) '0' ++ ds

/-- A number of millionths as a decimal fraction with no superfluous digit. -/
def millionthsText (negative : Bool) (n : Nat) : List Char :=
  let whole := Nat.toDigits 10 (n / 1000000)
  let fraction := ((paddedDigits 6 (n % 1000000)).reverse.dropWhile (· = '0')).reverse
  let sign := if negative && n != 0 then ['-'] else []
  sign ++ whole ++ if fraction.isEmpty then [] else '.' :: fraction

def Dyadic.fixedText (d : Dyadic) : List Char := millionthsText d.negative d.millionths

end PdfStore
