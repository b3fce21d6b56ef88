import PdfStore.Text.Reader
import PdfStore.Toml.Document

/-!
# Reading TOML

The grammar of TOML 1.0, from characters to the lines of a document.
-/

namespace PdfStore.Toml

open Text Text.Reader

/-! ## White space and comments -/

def isSpace (c : Char) : Bool := c = ' ' || c = '\t'

/-- Anything but control characters other than the tab. -/
def isPlain (c : Char) : Bool := c = '\t' || (' ' ≤ c && c ≠ '\x7f')

def spaces : Reader Unit := do
  let _ ← run isSpace

def newline : Reader Unit := char '\n' <|> word "\r\n"

def comment : Reader Unit := do
  char '#'
  let _ ← run isPlain

/-- The end of a line, after an optional comment. -/
def lineEnd : Reader Unit := do
  spaces
  let _ ← Reader.optional comment
  newline <|> finish

/-- White space, line ends and comments. -/
def gaps : Reader Unit := do
  let _ ← many ((do let _ ← run1 isSpace) <|> newline <|> (do
    comment
    newline))

/-! ## Strings -/

/-- The character that a letter after a backslash stands for. -/
def escaped? : Char → Option Char
  | 'b' => some '\x08'
  | 't' => some '\t'
  | 'n' => some '\n'
  | 'f' => some '\x0c'
  | 'r' => some '\r'
  | '"' => some '"'
  | '\\' => some '\\'
  | _ => none

def isScalar (n : Nat) : Bool := n < 0xD800 || (0xE000 ≤ n && n < 0x110000)

/-- A character given by its number in `n` digits. -/
def numbered (n : Nat) : Reader Char := do
  let v ← hexDigits n
  if isScalar v then return Char.ofNat v else failure

def escape : Reader Char := do
  char '\\'
  let e ← one fun _ => true
  match e with
  | 'u' => numbered 4
  | 'U' => numbered 8
  | e =>
    match escaped? e with
    | some c => return c
    | none => failure

/-- A character of a string on one line between marks `mark`. -/
def plainBut (mark : Char) : Reader Char := one fun c => isPlain c && c ≠ mark

def basicChar : Reader Char := one (fun c => isPlain c && c ≠ '"' && c ≠ '\\') <|> escape

def basic : Reader String := do
  char '"'
  let cs ← many basicChar
  char '"'
  return String.ofList cs

def literal : Reader String := do
  char '\''
  let cs ← run fun c => isPlain c && c ≠ '\''
  char '\''
  return String.ofList cs

/-- A line end in a string, which is a line feed whatever its form. -/
def brokenLine : Reader (List Char) := do
  newline
  return ['\n']

/-- A backslash at the end of a line, which takes away the white space up to the next text. -/
def joinedLines : Reader (List Char) := do
  char '\\'
  spaces
  newline
  let _ ← many ((do let _ ← one isSpace) <|> newline)
  return []

def single (r : Reader Char) : Reader (List Char) := do return [← r]

/-- One or two marks that do not end a string on several lines. -/
def fewMarks (mark : Char) : Reader (List Char) := do
  let marks ← run (· = mark)
  if marks.isEmpty || 3 ≤ marks.length then failure else return marks

/-- A string on several lines, between triple marks; up to two more marks at its end belong to it. -/
def tripled (mark : Char) (part : Reader (List Char)) : Reader String := do
  word (String.ofList [mark, mark, mark])
  let _ ← Reader.optional newline
  let parts ← many (part <|> fewMarks mark)
  let marks ← run (· = mark)
  if marks.length < 3 || 5 < marks.length then failure
  return String.ofList (parts.flatten ++ marks.drop 3)

def multiBasic : Reader String := tripled '"' (joinedLines <|> brokenLine <|> single basicChar)

def multiLiteral : Reader String := tripled '\'' (brokenLine <|> single (plainBut '\''))

def text : Reader String := multiBasic <|> basic <|> multiLiteral <|> literal

/-! ## Numbers -/

def isOctal (c : Char) : Bool := '0' ≤ c && c ≤ '7'

def isBinary (c : Char) : Bool := c = '0' || c = '1'

/-- Digits with single underscores between them. -/
def grouped (isDigit : Char → Bool) : Reader (List Char) := do
  let groups ← separated (run1 isDigit) (char '_')
  return groups.flatten

/-- Decimal digits without a superfluous zero in front. -/
def decimalDigits : Reader (List Char) := do
  let c ← one Char.isDigit
  if c = '0' then return ['0']
  let rest ← many ((do
    let _ ← Reader.optional (char '_')
    one Char.isDigit))
  return c :: rest

/-- Whether a minus sign stands here. -/
def sign : Reader Bool := do
  match ← Reader.optional (one fun c => c = '+' || c = '-') with
  | some '-' => return true
  | _ => return false

/-- The integers of 64 bits, the only ones there are. -/
def inRange (n : Int) : Reader Int :=
  if -9223372036854775808 ≤ n && n ≤ 9223372036854775807 then pure n else failure

def based (mark : String) (base : Nat) (isDigit : Char → Bool) : Reader Int := do
  word mark
  inRange (digitsValue base (← grouped isDigit))

def decimal : Reader Int := do
  let negative ← sign
  let n := digitsValue 10 (← decimalDigits)
  inRange (if negative then -n else n)

def integer : Reader Int :=
  based "0x" 16 isHexDigit <|> based "0o" 8 isOctal <|> based "0b" 2 isBinary <|> decimal

/-- Whether `m * 10 ^ e` rounds to a number above the largest finite double. -/
def overflows (m : Nat) (e : Int) : Bool :=
  let limit := Nat.pow 2 1024 - Nat.pow 2 970
  if m = 0 then false
  else if 400 < e then true
  else if e < 0 then
    if (Nat.toDigits 10 m).length + e < 1 then false else limit * Nat.pow 10 (-e).toNat ≤ m
  else limit ≤ m * Nat.pow 10 e.toNat

def exponent : Reader Int := do
  let _ ← one fun c => c = 'e' || c = 'E'
  let negative ← sign
  let n : Int := digitsValue 10 (← grouped Char.isDigit)
  return if negative then -n else n

def fraction : Reader (List Char) := do
  char '.'
  grouped Char.isDigit

/-- A float; a positive one too large for a double is refused. -/
def float : Reader Unit := do
  let negative ← sign
  (word "inf" <|> word "nan" <|> (do
    let whole ← decimalDigits
    let f ← Reader.optional fraction
    let e ← Reader.optional exponent
    if f.isNone && e.isNone then failure
    let places := f.getD []
    let m := digitsValue 10 (whole ++ places)
    if !negative && overflows m (e.getD 0 - places.length) then failure))

/-! ## Dates and times -/

/-- A number of exactly `n` digits between two bounds. -/
def padded (n low high : Nat) : Reader Nat := do
  let cs ← (List.replicate n ()).mapM fun _ => one Char.isDigit
  let v := digitsValue 10 cs
  if low ≤ v && v ≤ high then return v else failure

def daysIn (year month : Nat) : Nat :=
  if month = 2 then
    if year % 4 = 0 && (year % 100 ≠ 0 || year % 400 = 0) then 29 else 28
  else if month = 4 || month = 6 || month = 9 || month = 11 then 30
  else 31

def date : Reader Unit := do
  let year ← padded 4 0 9999
  char '-'
  let month ← padded 2 1 12
  char '-'
  let _ ← padded 2 1 (daysIn year month)

def time : Reader Unit := do
  let _ ← padded 2 0 23
  char ':'
  let _ ← padded 2 0 59
  char ':'
  let _ ← padded 2 0 60
  let _ ← Reader.optional (do
    char '.'
    run1 Char.isDigit)

def zone : Reader Unit := char 'Z' <|> char 'z' <|> (do
  let _ ← one fun c => c = '+' || c = '-'
  let _ ← padded 2 0 23
  char ':'
  let _ ← padded 2 0 59)

def dateTime : Reader Unit := (do
  date
  let _ ← Reader.optional (do
    let _ ← one fun c => c = 'T' || c = 't' || c = ' '
    time
    Reader.optional zone)) <|> time

/-! ## Keys and values -/

def isBare (c : Char) : Bool := c.isAlphanum || c = '_' || c = '-'

def simpleKey : Reader String := basic <|> literal <|> (do return String.ofList (← run1 isBare))

/-- The most levels of nesting in a value, and the most parts of a key. -/
def maxDepth : Nat := 79

def key : Reader (List String) := do
  let path ← separated (do
    spaces
    let k ← simpleKey
    spaces
    return k) (char '.')
  if maxDepth < path.length then failure else return path

def scalar : Reader Value :=
  (do return .text (← text)) <|> (do dateTime; return .other) <|> (do float; return .other) <|>
    (do return .integer (← integer)) <|> (do word "true"; return .boolean true) <|>
    (do word "false"; return .boolean false)

def entry (value : Reader Value) : Reader (List String × Value) := do
  let path ← key
  char '='
  spaces
  return (path, ← value)

def array (value : Reader Value) : Reader Value := do
  char '['
  let _ ← Reader.optional (do
    let _ ← separated (do
      gaps
      let _ ← value
      gaps) (char ',')
    Reader.optional (char ','))
  gaps
  char ']'
  return .other

def inlineTable (value : Reader Value) : Reader Value := do
  char '\x7b'
  let entries ← Reader.optional (separated (do
    let e ← entry value
    spaces
    return e) (char ','))
  spaces
  char '\x7d'
  match (entries.getD []).foldlM (fun t (path, v) => Table.define path v t) Table.empty with
  | some _ => return .other
  | none => failure

/-- A value of at most `n` levels. -/
def value : Nat → Reader Value
  | 0 => scalar
  | n + 1 => scalar <|> array (value n) <|> inlineTable (value n)

/-! ## Lines -/

def header : Reader Line := do
  word "[["
  let path ← key
  word "]]"
  return .element path

def tableHeader : Reader Line := do
  char '['
  let path ← key
  char ']'
  return .header path

def line : Reader Line := header <|> tableHeader <|> (do
  let (path, v) ← entry (value maxDepth)
  return .entry path v)

def lines : Reader (List Line) := do
  let _ ← Reader.optional (char '\ufeff')
  let found ← many ((do
    spaces
    let l ← line
    lineEnd
    return some l) <|> (do
    spaces
    let _ ← Reader.optional comment
    newline
    return none))
  spaces
  let _ ← Reader.optional comment
  return found.filterMap id

def parse? (s : String) : Option Table := do document [] Table.empty (← whole? lines s)

end PdfStore.Toml
