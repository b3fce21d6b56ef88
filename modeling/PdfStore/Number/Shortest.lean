import PdfStore.Number.Dyadic

/-!
# The fewest digits that name a real

`Dyadic.shortest` is the decimal of fewest digits that is nearer to the value than to its neighbours,
and `shortText` lays it out: positionally from `10 ^ -4` up to below `10 ^ 16`, otherwise with an
exponent.
-/

namespace PdfStore

/-- `digits * 10 ^ exponent`. -/
structure Decimal where
  digits : Nat
  exponent : Int
deriving DecidableEq, Repr

/-- Compares `a * 10 ^ i` with `m * 2 ^ q`. -/
def compareScaled (a : Nat) (i : Int) (m : Nat) (q : Int) : Ordering :=
  compare (a * Nat.pow 10 i.toNat * Nat.pow 2 (-q).toNat) (m * Nat.pow 2 q.toNat * Nat.pow 10 (-i).toNat)

namespace Dyadic

/-- Whether a decimal lies among the reals that round to the magnitude of `x`. Half way to a neighbour
belongs to the value of even mantissa. -/
def rounds (x : Dyadic) (d : Decimal) : Bool :=
  let low := if x.narrowBelow then 4 * x.mantissa - 1 else 4 * x.mantissa - 2
  let high := 4 * x.mantissa + 2
  let closed := x.mantissa % 2 == 0
  let below := compareScaled d.digits d.exponent low (x.exponent - 2)
  let above := compareScaled d.digits d.exponent high (x.exponent - 2)
  (below == .gt || closed && below == .eq) && (above == .lt || closed && above == .eq)

/-- The magnitude divided by `10 ^ e`, rounded down. -/
def floorAt (x : Dyadic) (e : Int) : Nat :=
  (x.mantissa * Nat.pow 2 x.exponent.toNat * Nat.pow 10 (-e).toNat) /
    (Nat.pow 2 (-x.exponent).toNat * Nat.pow 10 e.toNat)

/-- The least `k` from `start` on, within `steps`, with magnitude below `10 ^ k`. -/
def scaleFrom (x : Dyadic) : Nat → Int → Int
  | 0, k => k
  | steps + 1, k =>
    if compareScaled 1 k x.mantissa x.exponent == .gt then k else scaleFrom x steps (k + 1)

/-- The number of digits before the point, counted down from zero for leading zeros after it. -/
def scale (x : Dyadic) : Int :=
  x.scaleFrom 3 ((((x.mantissa.log2 : Int) + x.exponent) * 30103) / 100000)

/-- Of the two multiples of `10 ^ e` next to the magnitude the one that rounds to it; of two the nearer,
and at equal distance the larger. -/
def candidate? (x : Dyadic) (e : Int) : Option Decimal :=
  let low : Decimal := ⟨x.floorAt e, e⟩
  let high : Decimal := ⟨x.floorAt e + 1, e⟩
  match x.rounds low, x.rounds high with
  | true, false => some low
  | false, true => some high
  | false, false => none
  | true, true =>
    if compareScaled (2 * low.digits + 1) e x.mantissa (x.exponent + 1) == .gt then some low else some high

def exact (x : Dyadic) : Decimal :=
  match x.exponent with
  | .ofNat e => ⟨x.mantissa * Nat.pow 2 e, 0⟩
  | .negSucc e => ⟨x.mantissa * Nat.pow 5 (e + 1), .negSucc e⟩

/-- The candidate of fewest digits; seventeen suffice. -/
def shortest (x : Dyadic) : Decimal :=
  ((List.range 17).findSome? fun (n : Nat) => x.candidate? (x.scale - ((n : Int) + 1))).getD x.exact

end Dyadic

/-- Digits laid out with the point after the first `k` of them. -/
def positional (ds : List Char) (k : Int) : List Char :=
  if k ≤ 0 then ['0', '.'] ++ List.replicate (-k).toNat '0' ++ ds
  else if ds.length ≤ k.toNat then ds ++ List.replicate (k.toNat - ds.length) '0' ++ ['.', '0']
  else ds.take k.toNat ++ '.' :: ds.drop k.toNat

/-- Digits with the point after the first, and the power of ten. -/
def exponential (ds : List Char) (k : Int) : List Char :=
  let mantissa := match ds with
    | d :: e :: rest => d :: '.' :: e :: rest
    | _ => ds
  let exponent := if k - 1 < 0 then '-' :: Nat.toDigits 10 (1 - k).toNat else Nat.toDigits 10 (k - 1).toNat
  mantissa ++ 'e' :: exponent

/-- The fewest digits that read back to the real, with a point or an exponent. -/
def shortText (x : Float) : String :=
  if x.isNaN then "NaN"
  else
    let d := Dyadic.ofFloat x
    let sign := if d.negative then ['-'] else []
    let body :=
      if x.isInf then ['i', 'n', 'f']
      else if d.mantissa = 0 then ['0', '.', '0']
      else
        let s := d.shortest
        let all := Nat.toDigits 10 s.digits
        let k := (all.length : Int) + s.exponent
        let ds := (all.reverse.dropWhile (· = '0')).reverse
        if -4 < k && k ≤ 16 then positional ds k else exponential ds k
    String.ofList (sign ++ body)

end PdfStore
