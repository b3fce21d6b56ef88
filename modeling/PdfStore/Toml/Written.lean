import PdfStore.Toml.Reader

/-!
# Writing TOML strings

A string is written in the first of four forms that needs no escapes: between double quotes, between
single quotes, and the same on several lines; a string that has none of them is escaped.
-/

namespace PdfStore.Toml

/-- The length of the longest run of `mark`, the first of which goes on from `n` marks. -/
def longestRun (mark : Char) (n : Nat) : List Char → Nat
  | [] => n
  | c :: cs => if c = mark then longestRun mark (n + 1) cs else max n (longestRun mark 0 cs)

/-- The four upper-case hexadecimal digits of a small number. -/
def fourDigits (n : Nat) : List Char :=
  [n / 4096, n / 256 % 16, n / 16 % 16, n % 16].map fun d => (Nat.digitChar d).toUpper

def escapeChar (c : Char) : List Char :=
  if c = '\x08' then ['\\', 'b']
  else if c = '\t' then ['\\', 't']
  else if c = '\n' then ['\\', 'n']
  else if c = '\x0c' then ['\\', 'f']
  else if c = '\r' then ['\\', 'r']
  else if c = '\\' then ['\\', '\\']
  else if isPlain c then [c]
  else '\\' :: 'u' :: fourDigits c.toNat

/-- Characters between double quotes, on several lines or not. On several lines two double quotes in a
row stand for themselves; `n` of them stand right in front. -/
def escapeAll (lines : Bool) (n : Nat) : List Char → List Char
  | [] => []
  | c :: cs =>
    if c = '"' then
      if lines && n < 2 then '"' :: escapeAll lines (n + 1) cs else '\\' :: '"' :: escapeAll lines 0 cs
    else if c = '\n' && lines then '\n' :: escapeAll lines 0 cs
    else escapeChar c ++ escapeAll lines 0 cs

def written (s : String) : String :=
  let cs := s.toList
  let lines := cs.contains '\n'
  let plain := cs.all fun c => isPlain c || c = '\n'
  let doubles := longestRun '"' 0 cs
  let singles := longestRun '\'' 0 cs
  let start : List Char := if lines then ['\n'] else []
  let basic := '"' :: escapeAll false 0 cs ++ ['"']
  let multiBasic := ['"', '"', '"'] ++ start ++ escapeAll true 0 cs ++ ['"', '"', '"']
  String.ofList <|
    if plain && !cs.contains '\\' && doubles == 0 && !lines then basic
    else if plain && singles == 0 && !lines then '\'' :: cs ++ ['\'']
    else if plain && !cs.contains '\\' && doubles ≤ 2 then multiBasic
    else if plain && singles ≤ 2 then ['\'', '\'', '\''] ++ start ++ cs ++ ['\'', '\'', '\'']
    else if lines then multiBasic
    else basic

end PdfStore.Toml
