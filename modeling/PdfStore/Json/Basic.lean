import PdfStore.Text.Reader

/-!
# JSON texts

Values as far as identities and handles need them: natural numbers, arrays, and objects with their
fields in order. All other leaves are alike.
-/

namespace PdfStore

inductive Json
  | natural (n : Nat)
  | leaf
  | array (items : List Json)
  /-- A field has no name if its text is not one of Unicode characters. -/
  | object (fields : List (Option String × Json))

namespace Json

open Text Reader

def blanks : Reader Unit := do
  let _ ← run fun c => c = ' ' || c = '\t' || c = '\n' || c = '\r'

/-! ## Strings -/

/-- A character, or a number of sixteen bits given by an escape. -/
inductive Piece
  | char (c : Char)
  | unit (n : Nat)

/-- The character that stands for itself or another after a backslash. -/
def escaped? : Char → Option Char
  | '"' => some '"'
  | '\\' => some '\\'
  | '/' => some '/'
  | 'b' => some '\x08'
  | 'f' => some '\x0c'
  | 'n' => some '\n'
  | 'r' => some '\r'
  | 't' => some '\t'
  | _ => none

def piece : Reader Piece := do
  let c ← one fun c => ' ' ≤ c && c ≠ '"'
  if c ≠ '\\' then return .char c
  let e ← one fun _ => true
  if e = 'u' then return .unit (← hexDigits 4)
  match escaped? e with
  | some c => return .char c
  | none => failure

def isHighSurrogate (n : Nat) : Bool := 0xD800 ≤ n && n ≤ 0xDBFF

def isLowSurrogate (n : Nat) : Bool := 0xDC00 ≤ n && n ≤ 0xDFFF

/-- The characters, if every surrogate has its partner. -/
def characters? : List Piece → Option (List Char)
  | [] => some []
  | .char c :: rest => (characters? rest).map (c :: ·)
  | .unit n :: rest =>
    if isHighSurrogate n then
      match rest with
      | .unit m :: rest =>
        if isLowSurrogate m then
          (characters? rest).map (Char.ofNat (0x10000 + 0x400 * (n - 0xD800) + (m - 0xDC00)) :: ·)
        else none
      | _ => none
    else if isLowSurrogate n then none
    else (characters? rest).map (Char.ofNat n :: ·)

/-- A text between quotation marks; `none` if it is not one of Unicode characters. -/
def string : Reader (Option String) := do
  char '"'
  let pieces ← many piece
  char '"'
  return (characters? pieces).map String.ofList

/-! ## Numbers -/

/-- Digits without a superfluous zero in front. -/
def digits : Reader (List Char) := do
  let cs ← run1 Char.isDigit
  if cs.head? = some '0' && cs.length ≠ 1 then failure else return cs

/-- What makes a number more than a sequence of digits. -/
def fraction : Reader Unit := do
  char '.'
  let _ ← run1 Char.isDigit

def exponent : Reader Unit := do
  let _ ← one fun c => c = 'e' || c = 'E'
  let _ ← Reader.optional (one fun c => c = '+' || c = '-')
  let _ ← run1 Char.isDigit

def number : Reader Json := do
  let sign ← Reader.optional (char '-')
  let cs ← digits
  let f ← Reader.optional fraction
  let e ← Reader.optional exponent
  if sign.isNone && f.isNone && e.isNone then return .natural (digitsValue 10 cs) else return .leaf

/-! ## Values -/

def keyword : Reader Json := do
  word "null" <|> word "true" <|> word "false"
  return .leaf

def listOf {α : Type} (first last : Char) (item : Reader α) : Reader (List α) := do
  char first
  let items ← Reader.optional (separated item (char ','))
  blanks
  char last
  return items.getD []

/-- A value with white space around it and at most `n` levels. -/
def value : Nat → Reader Json
  | 0 => failure
  | n + 1 => do
    blanks
    let v ← number <|> keyword <|> (do let _ ← string; return .leaf) <|>
      (do return .array (← listOf '[' ']' (value n))) <|>
      (do return .object (← listOf '\x7b' '\x7d' (do
        blanks
        let name ← string
        blanks
        char ':'
        return (name, ← value n))))
    blanks
    return v

/-- The value of a whole text. Every level takes a character. -/
def parse? (s : String) : Option Json := whole? (value (s.length + 1)) s

end Json

end PdfStore
