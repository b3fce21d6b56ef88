/-!
# Readers of text

A reader takes characters from the front of a text and answers a value and the rest, or fails. After a
failure `<|>` goes on from where the first reader began.
-/

namespace PdfStore.Text

abbrev Reader (α : Type) := StateT (List Char) Option α

namespace Reader

variable {α β : Type}

/-- The next character, which stays where it is. -/
def peek? : Reader (Option Char) := fun cs => some (cs.head?, cs)

/-- A character that satisfies `p`. -/
def one (p : Char → Bool) : Reader Char
  | c :: cs => if p c then some (c, cs) else none
  | [] => none

def char (c : Char) : Reader Unit := do let _ ← one (· == c)

/-- The characters of `s`, one after the other. -/
def word (s : String) : Reader Unit := s.toList.forM char

/-- The longest run of characters that satisfy `p`. -/
def run (p : Char → Bool) : Reader (List Char) := fun cs => some (cs.takeWhile p, cs.dropWhile p)

/-- The longest run, which is not empty. -/
def run1 (p : Char → Bool) : Reader (List Char) := do
  let cs ← run p
  if cs.isEmpty then failure else return cs

/-- The end of the text. -/
def finish : Reader Unit
  | [] => some ((), [])
  | _ :: _ => none

/-- Readings of `p` until it fails, at most `n`. -/
def upTo (p : Reader α) : Nat → Reader (List α)
  | 0 => pure []
  | n + 1 => (do
    let a ← p
    return a :: (← upTo p n)) <|> pure []

/-- Readings of `p` until it fails. Each takes a character at least, so there are at most as many as
characters. -/
def many (p : Reader α) : Reader (List α) := fun cs => upTo p cs.length cs

/-- One reading of `p` or more, with `separator` between neighbours. -/
def separated (p : Reader α) (separator : Reader β) : Reader (List α) := do
  let a ← p
  return a :: (← many (do
    let _ ← separator
    p))

def optional (p : Reader α) : Reader (Option α) := (do return some (← p)) <|> pure none

/-- What `p` reads from the whole text. -/
def whole? (p : Reader α) (s : String) : Option α := do
  let (a, rest) ← p s.toList
  if rest.isEmpty then some a else none

end Reader

def isHexDigit (c : Char) : Bool := c.isDigit || ('a' ≤ c && c ≤ 'f') || ('A' ≤ c && c ≤ 'F')

def digitValue (c : Char) : Nat :=
  if c.isDigit then c.toNat - 48 else if c ≤ 'F' then c.toNat - 55 else c.toNat - 87

def digitsValue (base : Nat) (cs : List Char) : Nat := cs.foldl (fun n c => base * n + digitValue c) 0

def hexDigits : Nat → Reader Nat
  | n => do
    let cs ← (List.replicate n ()).mapM fun _ => Reader.one isHexDigit
    return digitsValue 16 cs

end PdfStore.Text
