/-!
# Words and decimal numbers

Text split at ASCII white space, and unsigned decimal numbers with a limit.
-/

namespace PdfStore.Text

/-- ASCII white space: space, tab, line feed, form feed and carriage return. -/
def isBlank (c : Char) : Bool := c = ' ' || c = '\t' || c = '\n' || c = '\x0c' || c = '\r'

/-- The maximal runs of characters that are not white space. -/
def words : List Char → List (List Char)
  | [] => []
  | c :: rest =>
    if isBlank c then words rest
    else match rest with
      | [] => [[c]]
      | d :: _ =>
        if isBlank d then [c] :: words rest
        else match words rest with
          | w :: ws => (c :: w) :: ws
          | [] => [[c]]

/-- The value of a nonempty run of decimal digits. -/
def digits? (cs : List Char) : Option Nat :=
  if cs.isEmpty || !cs.all Char.isDigit then none else some (Nat.ofDigitChars 10 cs 0)

/-- A number of decimal digits after an optional plus sign, if it does not exceed `limit`. -/
def decimal? (limit : Nat) (cs : List Char) : Option Nat :=
  let value := match cs with
    | '+' :: rest => digits? rest
    | _ => digits? cs
  value.filter (· ≤ limit)

end PdfStore.Text
