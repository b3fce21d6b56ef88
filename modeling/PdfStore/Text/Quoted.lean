import PdfStore.Text.Hidden

/-!
# Quoted text

A text is shown between quotation marks so that every character can be told from its neighbours: the
quotation mark and the backslash are escaped, the common control characters have a letter, and other
characters without a picture are given by their number in braces.
-/

namespace PdfStore.Text

/-- The written form of one character inside quotation marks `mark`. -/
def escapeChar (mark c : Char) : List Char :=
  if c = mark || c = '\\' then ['\\', c]
  else if c = '\x00' then ['\\', '0']
  else if c = '\t' then ['\\', 't']
  else if c = '\n' then ['\\', 'n']
  else if c = '\r' then ['\\', 'r']
  else if isHidden c then ['\\', 'u', '\x7b'] ++ Nat.toDigits 16 c.toNat ++ ['\x7d']
  else [c]

def quoted (s : String) : String :=
  String.ofList ('"' :: s.toList.flatMap (escapeChar '"') ++ ['"'])

def quotedChar (c : Char) : String := String.ofList ('\'' :: escapeChar '\'' c ++ ['\''])

end PdfStore.Text
