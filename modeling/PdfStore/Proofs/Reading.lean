import Mathlib.Data.List.Basic
import PdfStore.Object.Written
import PdfStore.Text.Words

/-!
# Reading objects back

`Object.form` is what the written form of an object shows of it: of a number its text, of a reference the
identity it is written as, and of a stream the length of its data as `Length`. `Form.read?` reads it back
from the bytes. Where a number may be the first part of a reference the reader looks ahead, and the
payload of a stream it takes by its length, so the bytes of a payload are never read.
-/

namespace PdfStore

inductive Form
  | null
  | boolean (b : Bool)
  | number (text : Bytes)
  | name (n : Name)
  | string (s : ByteString)
  | array (items : List Form)
  | dictionary (entries : OrderedMap Name Form)
  | stream (entries : OrderedMap Name Form) (data : Bytes)
  | reference (id : Option ObjectId)

/-! ## What is written of an object -/

def Number.text : Number → Bytes
  | .integer n => Bytes.ofString (toString n.toInt)
  | .real x => Bytes.ofString (String.ofList (Dyadic.ofFloat x).fixedText)

/-- The identity as which a reference is written. -/
def writtenIdentity (table : Option ReferenceTable) (r : Reference) : Option ObjectId :=
  match table with
  | none => some .sentinel
  | some identity => identity r

/-- A length as a number of the object language. -/
def Form.length (data : Bytes) : Form := .number (Bytes.ofString (toString data.length))

namespace Object

variable (table : Option ReferenceTable)

mutual

def form : Object → Form
  | null => .null
  | boolean b => .boolean b
  | number n => .number n.text
  | name n => .name n
  | string s => .string s
  | array items => .array (itemForms items)
  | dictionary entries => .dictionary (mapForms entries)
  | stream entries data => .stream ((mapForms entries).insert "Length" (.length data)) data
  | indirect r => .reference (writtenIdentity table r)

def itemForms : List Object → List Form
  | [] => []
  | o :: rest => form o :: itemForms rest

def mapForms : OrderedMap Name Object → OrderedMap Name Form
  | ⟨entries⟩ => ⟨listForms entries⟩

def listForms : List (Name × Object) → List (Name × Form)
  | [] => []
  | (k, o) :: rest => (k, form o) :: listForms rest

end

end Object

namespace Form

/-! ## Leaves -/

def isDigit (b : UInt8) : Bool := 0x30 ≤ b && b ≤ 0x39

def isNumeral (b : UInt8) : Bool := isDigit b || b == 0x2D || b == 0x2E

/-- Bytes that a name is written with. -/
def isNameByte (b : UInt8) : Bool := b == 0x23 || !needsEscape b

/-- The text that the bytes encode, if they encode one. -/
def text? (b : Bytes) : Option String := b.toByteArray.utf8Decode?.map fun cs => String.ofList cs.toList

def natural? (b : Bytes) : Option Nat := (text? b).bind fun s => Text.digits? s.toList

def push (b : UInt8) (read : Option (Bytes × Bytes)) : Option (Bytes × Bytes) :=
  read.map fun p => (b :: p.1, p.2)

/-- The byte that two hexadecimal digits stand for. -/
def hexByte? (high low : UInt8) : Option UInt8 := do
  return UInt8.ofNat (16 * (← Bytes.hexValue? high) + (← Bytes.hexValue? low))

def unescape? : Bytes → Option Bytes
  | [] => some []
  | b :: rest =>
    if b = 0x23 then
      match rest with
      | high :: low :: rest => (hexByte? high low).bind fun c => (unescape? rest).map (c :: ·)
      | _ => none
    else (unescape? rest).map (b :: ·)

/-- A name after its slash. -/
def readName (b : Bytes) : Option (Name × Bytes) := do
  let n ← text? (← unescape? (b.takeWhile isNameByte))
  return (n, b.dropWhile isNameByte)

/-- The byte that a letter or delimiter after a backslash stands for. -/
def escaped (b : UInt8) : UInt8 :=
  if b = 0x6E then 0x0A
  else if b = 0x72 then 0x0D
  else if b = 0x74 then 0x09
  else if b = 0x62 then 0x08
  else if b = 0x66 then 0x0C
  else b

def octal (b c d : UInt8) : UInt8 :=
  UInt8.ofNat (64 * (b.toNat - 48) + 8 * (c.toNat - 48) + (d.toNat - 48))

/-- A literal string after its opening parenthesis. -/
def readLiteral : Bytes → Option (Bytes × Bytes)
  | [] => none
  | b :: rest =>
    if b = 0x29 then some ([], rest)
    else if b = 0x5C then
      match rest with
      | [] => none
      | c :: rest =>
        if isDigit c then
          match rest with
          | d :: e :: rest => push (octal c d e) (readLiteral rest)
          | _ => none
        else push (escaped c) (readLiteral rest)
    else push b (readLiteral rest)

/-- A hexadecimal string after its opening bracket. -/
def readHex : Bytes → Option (Bytes × Bytes)
  | [] => none
  | b :: rest =>
    if b = 0x3E then some ([], rest)
    else match rest with
      | [] => none
      | c :: rest => (hexByte? b c).bind fun d => push d (readHex rest)

/-- The generation and the mark of a reference, if they come next. -/
def generation? (b : Bytes) : Option (Bytes × Bytes) := do
  let b ← b.dropPrefix? [0x20]
  let rest ← (b.dropWhile isDigit).dropPrefix? [0x20, 0x52]
  return (b.takeWhile isDigit, rest)

/-- A number, or a reference if a generation and the mark follow. -/
def readNumeral (b : Bytes) : Option (Form × Bytes) :=
  let text := b.takeWhile isNumeral
  let rest := b.dropWhile isNumeral
  match generation? rest with
  | none => if text = [] then none else some (.number text, rest)
  | some (g, rest) => do
    let n ← (natural? text).filter (· < UInt32.size)
    let g ← (natural? g).filter (· < UInt16.size)
    return (.reference (some ⟨UInt32.ofNat n, UInt16.ofNat g⟩), rest)

def readWord (word : String) (f : Form) (b : Bytes) : Option (Form × Bytes) :=
  (b.dropPrefix? (Bytes.ofString word)).map fun rest => (f, rest)

def readLeaf (b : Bytes) : Option (Form × Bytes) :=
  match b.head? with
  | some 0x6E => readWord "null" .null b
  | some 0x74 => readWord "true" (.boolean true) b
  | some 0x66 => readWord "false" (.boolean false) b
  | some 0x2F => (readName b.tail).map fun p => (.name p.1, p.2)
  | some 0x28 => (readLiteral b.tail).map fun p => (.string ⟨p.1, .literal⟩, p.2)
  | some 0x3C => (readHex b.tail).map fun p => (.string ⟨p.1, .hex⟩, p.2)
  | _ => readNumeral b

/-! ## Composites -/

/-- The payload of a stream with these entries, from its first byte on. -/
def readPayload (entries : OrderedMap Name Form) (b : Bytes) : Option (Form × Bytes) :=
  match entries.get? "Length" with
  | some (.number text) =>
    (natural? text).bind fun n => ((b.drop n).dropPrefix? (Bytes.ofString "\nendstream")).map fun rest =>
      (.stream entries (b.take n), rest)
  | _ => none

/-- What a dictionary with these entries is: a stream, if a payload follows. -/
def readKeyed (entries : OrderedMap Name Form) (b : Bytes) : Option (Form × Bytes) :=
  match b.dropPrefix? (Bytes.ofString "\nstream\n") with
  | none => some (.dictionary entries, b)
  | some b => readPayload entries b

mutual

/-- Reads an object from the front. The first argument bounds the nesting and the number of items. -/
def readObject : Nat → Bytes → Option (Form × Bytes)
  | 0, _ => none
  | n + 1, b =>
    match b.dropPrefix? [0x5B] with
    | some rest => (readItems n rest).map fun p => (.array p.1, p.2)
    | none =>
      match b.dropPrefix? [0x3C, 0x3C] with
      | some rest => (readEntries n rest).bind fun p => readKeyed ⟨p.1⟩ p.2
      | none => readLeaf b

/-- Items up to the closing bracket; a blank before an item is passed over. -/
def readItems : Nat → Bytes → Option (List Form × Bytes)
  | 0, _ => none
  | n + 1, b =>
    match b.head? with
    | some 0x5D => some ([], b.tail)
    | some 0x20 => readItems n b.tail
    | _ => (readObject n b).bind fun p => (readItems n p.2).map fun q => (p.1 :: q.1, q.2)

/-- Entries up to the closing brackets; a blank before a key is passed over. -/
def readEntries : Nat → Bytes → Option (List (Name × Form) × Bytes)
  | 0, _ => none
  | n + 1, b =>
    match b.head? with
    | some 0x3E => (b.dropPrefix? [0x3E, 0x3E]).map fun rest => ([], rest)
    | some 0x20 => readEntries n b.tail
    | some 0x2F =>
      (readName b.tail).bind fun k => (readObject n k.2.tail).bind fun p =>
        (readEntries n p.2).map fun q => ((k.1, p.1) :: q.1, q.2)
    | _ => none

end

/-- The object that the bytes are the written form of, if they are one. -/
def read? (b : Bytes) : Option Form :=
  match readObject b.length b with
  | some (f, []) => some f
  | _ => none

/-! ## Texts and numbers -/

theorem text?_ofString (s : String) : text? (Bytes.ofString s) = some s := by
  have h : (Bytes.ofString s).toByteArray = s.toList.utf8Encode := rfl
  simp only [text?, h, List.utf8Decode?_utf8Encode, Option.map_some, String.ofList_toList]

theorem isDigit_of_mem_toDigits {n : Nat} : ∀ c ∈ Nat.toDigits 10 n, c.isDigit = true := fun _ hc =>
  Nat.isDigit_of_mem_toDigits (by decide) (by decide) hc

theorem natural?_toString (n : Nat) : natural? (Bytes.ofString (toString n)) = some n := by
  simpa [natural?, text?_ofString, Text.digits?, Nat.ofDigitChars_toDigits] using @isDigit_of_mem_toDigits n

theorem isDigit_of_char {c : Char} (h : c.isDigit = true) : ∀ b ∈ String.utf8EncodeChar c, isDigit b := by
  have hc : 48 ≤ c.val ∧ c.val ≤ 57 := by simpa [Char.isDigit] using h
  have h₁ : c.utf8Size = 1 := Char.utf8Size_eq_one_iff.2 (UInt32.le_trans hc.2 (by decide))
  have h₂ : c.val.toUInt8.toNat = c.val.toNat % 256 := UInt32.toNat_toUInt8 c.val
  rw [UInt32.le_iff_toNat_le, UInt32.le_iff_toNat_le] at hc
  change 48 ≤ c.val.toNat ∧ c.val.toNat ≤ 57 at hc
  rw [String.utf8EncodeChar_eq_singleton h₁]
  intro b hb
  rw [List.mem_singleton.1 hb, isDigit, Bool.and_eq_true, decide_eq_true_eq, decide_eq_true_eq,
    UInt8.le_iff_toNat_le, UInt8.le_iff_toNat_le, h₂]
  change 48 ≤ c.val.toNat % 256 ∧ c.val.toNat % 256 ≤ 57
  omega

theorem isDigit_of_mem_toString {n : Nat} : ∀ b ∈ Bytes.ofString (toString n), isDigit b := by
  intro b hb
  obtain ⟨c, hc, hb⟩ := List.mem_flatMap.1 hb
  rw [show (toString n).toList = Nat.toDigits 10 n from Nat.toList_repr] at hc
  exact isDigit_of_char (isDigit_of_mem_toDigits c hc) b hb

theorem isNumeral_of_isDigit {b : UInt8} (h : isDigit b = true) : isNumeral b = true := by
  simp [isNumeral, h]

/-- The characters of numbers: digits, a minus sign, a point. -/
theorem isNumeral_of_char {c : Char} (h : c.isDigit = true ∨ c = '-' ∨ c = '.') :
    ∀ b ∈ String.utf8EncodeChar c, isNumeral b := by
  rcases h with h | rfl | rfl
  · exact fun b hb => isNumeral_of_isDigit (isDigit_of_char h b hb)
  · change ∀ b ∈ [0x2D], isNumeral b = true
    simp [isNumeral]
  · change ∀ b ∈ [0x2E], isNumeral b = true
    simp [isNumeral]

theorem isDigit_of_mem_paddedDigits {width n : Nat} : ∀ c ∈ paddedDigits width n, c.isDigit = true := by
  intro c hc
  rcases List.mem_append.1 hc with hc | hc
  · rw [(List.mem_replicate.1 hc).2]
    decide
  · exact isDigit_of_mem_toDigits c hc

theorem mem_millionthsText {negative : Bool} {n : Nat} :
    ∀ c ∈ millionthsText negative n, c.isDigit = true ∨ c = '-' ∨ c = '.' := by
  intro c hc
  have sign : c ∈ (if negative && n != 0 then ['-'] else []) → c = '-' := by split <;> simp
  rcases List.mem_append.1 hc with hc | hc
  · rcases List.mem_append.1 hc with hc | hc
    · exact Or.inr (Or.inl (sign hc))
    · exact Or.inl (isDigit_of_mem_toDigits c hc)
  · split at hc
    · cases hc
    · rcases List.mem_cons.1 hc with rfl | hc
      · exact Or.inr (Or.inr rfl)
      · exact Or.inl (isDigit_of_mem_paddedDigits c
          (List.mem_reverse.1 ((List.dropWhile_suffix _).subset (List.mem_reverse.1 hc))))

theorem mem_toString_int {i : Int} : ∀ c ∈ (toString i).toList, c.isDigit = true ∨ c = '-' ∨ c = '.' := by
  intro c hc
  cases i with
  | ofNat m =>
      rw [show (toString (Int.ofNat m)).toList = Nat.toDigits 10 m from Nat.toList_repr] at hc
      exact Or.inl (isDigit_of_mem_toDigits c hc)
  | negSucc m =>
      rw [show toString (Int.negSucc m) = "-" ++ (m + 1).repr from rfl, String.toList_append,
        Nat.toList_repr] at hc
      rcases List.mem_append.1 hc with hc | hc
      · exact Or.inr (Or.inl (List.mem_singleton.1 hc))
      · exact Or.inl (isDigit_of_mem_toDigits c hc)

theorem isNumeral_of_mem_text {n : Number} : ∀ b ∈ n.text, isNumeral b := by
  intro b hb
  cases n with
  | integer n =>
      obtain ⟨c, hc, hb⟩ := List.mem_flatMap.1 hb
      exact isNumeral_of_char (mem_toString_int c hc) b hb
  | real x =>
      obtain ⟨c, hc, hb⟩ := List.mem_flatMap.1 hb
      rw [String.toList_ofList] at hc
      exact isNumeral_of_char (mem_millionthsText c hc) b hb

theorem ofString_ne_nil {s : String} (h : s.toList ≠ []) : Bytes.ofString s ≠ [] := by
  obtain ⟨c, hc⟩ := List.exists_mem_of_ne_nil _ h
  intro hnil
  have hlen : (String.utf8EncodeChar c).length = 0 := by
    rw [List.flatMap_eq_nil_iff.1 hnil c hc]
    rfl
  rw [String.length_utf8EncodeChar] at hlen
  exact absurd c.utf8Size_pos (by omega)

theorem toString_ne_nil (n : Nat) : Bytes.ofString (toString n) ≠ [] := by
  refine ofString_ne_nil ?_
  rw [show (toString n).toList = Nat.toDigits 10 n from Nat.toList_repr]
  exact Nat.toDigits_ne_nil

theorem text_ne_nil (n : Number) : n.text ≠ [] := by
  cases n with
  | integer n =>
      refine ofString_ne_nil ?_
      cases n.toInt with
      | ofNat m =>
          rw [show (toString (Int.ofNat m)).toList = Nat.toDigits 10 m from Nat.toList_repr]
          exact Nat.toDigits_ne_nil
      | negSucc m =>
          rw [show toString (Int.negSucc m) = "-" ++ (m + 1).repr from rfl, String.toList_append]
          simp
  | real x =>
      refine ofString_ne_nil ?_
      rw [String.toList_ofList, Dyadic.fixedText, millionthsText]
      simp [Nat.toDigits_ne_nil]

/-- A run of bytes is read up to the first byte that does not belong to it. -/
theorem run_append {p : UInt8 → Bool} {xs r : Bytes} (h : ∀ b ∈ xs, p b) (hr : ∀ b ∈ r.head?, p b = false) :
    (xs ++ r).takeWhile p = xs ∧ (xs ++ r).dropWhile p = r := by
  rw [List.takeWhile_append_of_pos h, List.dropWhile_append_of_pos h]
  cases r with
  | nil => simp
  | cons b r => simp [hr b rfl]

/-! ## Names -/

theorem hexValue?_hexDigit {n : Nat} (h : n < 16) : Bytes.hexValue? (Bytes.hexDigit n) = some n := by
  revert n
  decide

theorem hexByte?_hexPair (b : UInt8) :
    hexByte? (Bytes.hexDigit (b.toNat / 16)) (Bytes.hexDigit (b.toNat % 16)) = some b := by
  have hb := b.toNat_lt
  rw [hexByte?, hexValue?_hexDigit (by omega), hexValue?_hexDigit (by omega)]
  change some (UInt8.ofNat (16 * (b.toNat / 16) + b.toNat % 16)) = some b
  rw [Nat.div_add_mod, UInt8.ofNat_toNat]

theorem isNameByte_hexDigit {n : Nat} (h : n < 16) : isNameByte (Bytes.hexDigit n) := by
  revert n
  decide

theorem hexDigit_ne_close {n : Nat} (h : n < 16) : Bytes.hexDigit n ≠ 0x3E := by
  revert n
  decide

theorem hexDigit_ne_open {n : Nat} (h : n < 16) : Bytes.hexDigit n ≠ 0x3C := by
  revert n
  decide

theorem isNameByte_of_mem_nameBytes {n : Name} : ∀ b ∈ nameBytes n, isNameByte b := by
  intro b hb
  obtain ⟨c, -, hb⟩ := List.mem_flatMap.1 hb
  have hc := c.toNat_lt
  split at hb
  · simp only [Bytes.hexPair, List.mem_cons, List.not_mem_nil, or_false] at hb
    rcases hb with rfl | rfl | rfl
    · decide
    · exact isNameByte_hexDigit (by omega)
    · exact isNameByte_hexDigit (by omega)
  · rw [List.mem_singleton.1 hb]
    simp_all [isNameByte]

theorem unescape?_escape (high low : UInt8) (rest : Bytes) :
    unescape? (0x23 :: high :: low :: rest) =
      (hexByte? high low).bind fun b => (unescape? rest).map (b :: ·) := by
  rw [unescape?.eq_def]
  rfl

theorem unescape?_plain {b : UInt8} (hb : b ≠ 0x23) (rest : Bytes) :
    unescape? (b :: rest) = (unescape? rest).map (b :: ·) := by
  rw [unescape?.eq_def]
  exact if_neg hb

theorem unescape?_nameBytes (n : Name) : unescape? (nameBytes n) = some (Bytes.ofString n) := by
  rw [nameBytes]
  induction Bytes.ofString n with
  | nil => rfl
  | cons b xs ih =>
      rw [List.flatMap_cons]
      split
      · refine (unescape?_escape _ _ _).trans ?_
        rw [hexByte?_hexPair, Option.bind_some]
        exact congrArg (Option.map (b :: ·)) ih
      · rename_i hb
        have hne : b ≠ 0x23 := by
          rintro rfl
          exact hb (by decide)
        rw [List.cons_append, List.nil_append, unescape?_plain hne, ih]
        rfl

theorem readName_nameBytes {n : Name} {r : Bytes} (hr : ∀ b ∈ r.head?, isNameByte b = false) :
    readName (nameBytes n ++ r) = some (n, r) := by
  obtain ⟨h₁, h₂⟩ := run_append (@isNameByte_of_mem_nameBytes n) hr
  rw [readName, h₁, h₂, unescape?_nameBytes]
  change (text? (Bytes.ofString n)).bind _ = _
  rw [text?_ofString]
  rfl

/-! ## Strings -/

theorem readLiteral_plain {b : UInt8} (h₁ : b ≠ 0x29) (h₂ : b ≠ 0x5C) (r : Bytes) :
    readLiteral (b :: r) = push b (readLiteral r) := by
  rw [readLiteral.eq_def]
  exact (if_neg h₁).trans (if_neg h₂)

theorem readLiteral_escaped {b : UInt8} (h : isDigit b = false) (r : Bytes) :
    readLiteral (0x5C :: b :: r) = push (escaped b) (readLiteral r) := by
  rw [readLiteral.eq_def]
  change (if isDigit b = true then _ else _) = _
  rw [if_neg (by simp [h])]

theorem readLiteral_octal {b : UInt8} (h : isDigit b = true) (c d : UInt8) (r : Bytes) :
    readLiteral (0x5C :: b :: c :: d :: r) = push (octal b c d) (readLiteral r) := by
  rw [readLiteral.eq_def]
  exact if_pos h

theorem isDigit_ofNat {k : Nat} (h : k < 10) : isDigit (UInt8.ofNat (48 + k)) = true := by
  revert k
  decide

theorem octal_digits (b : UInt8) :
    octal (UInt8.ofNat (48 + b.toNat / 64)) (UInt8.ofNat (48 + b.toNat / 8 % 8))
      (UInt8.ofNat (48 + b.toNat % 8)) = b := by
  have hb := b.toNat_lt
  refine UInt8.toNat_inj.1 ?_
  simp only [octal, UInt8.toNat_ofNat']
  omega

theorem readLiteral_literalByte (b : UInt8) (r : Bytes) :
    readLiteral (literalByte b ++ r) = push b (readLiteral r) := by
  have hb := b.toNat_lt
  unfold literalByte
  split
  · rename_i h
    simp only [Bool.or_eq_true, beq_iff_eq] at h
    rcases h with (rfl | rfl) | rfl <;> exact readLiteral_escaped (by decide) r
  split
  · rename_i h
    rw [eq_of_beq h]
    exact readLiteral_escaped (b := 0x6E) (by decide) r
  split
  · rename_i h
    rw [eq_of_beq h]
    exact readLiteral_escaped (b := 0x72) (by decide) r
  split
  · rename_i h
    rw [eq_of_beq h]
    exact readLiteral_escaped (b := 0x74) (by decide) r
  split
  · rename_i h
    rw [eq_of_beq h]
    exact readLiteral_escaped (b := 0x62) (by decide) r
  split
  · rename_i h
    rw [eq_of_beq h]
    exact readLiteral_escaped (b := 0x66) (by decide) r
  split
  · simp_all [readLiteral_plain]
  · rw [List.map_cons, List.map_cons, List.map_cons, List.map_nil, List.cons_append, List.cons_append,
      List.cons_append, List.cons_append, List.nil_append,
      readLiteral_octal (isDigit_ofNat (by omega)), octal_digits]

theorem readLiteral_append (xs r : Bytes) :
    readLiteral (xs.flatMap literalByte ++ 0x29 :: r) = some (xs, r) := by
  induction xs with
  | nil =>
      rw [readLiteral.eq_def]
      rfl
  | cons b xs ih =>
      rw [List.flatMap_cons, List.append_assoc, readLiteral_literalByte, ih]
      rfl

theorem readHex_pair {b : UInt8} (hb : b ≠ 0x3E) (c : UInt8) (r : Bytes) :
    readHex (b :: c :: r) = (hexByte? b c).bind fun d => push d (readHex r) := by
  rw [readHex.eq_def]
  exact if_neg hb

theorem readHex_append (xs r : Bytes) :
    readHex (xs.flatMap Bytes.hexPair ++ 0x3E :: r) = some (xs, r) := by
  induction xs with
  | nil =>
      rw [readHex.eq_def]
      rfl
  | cons b xs ih =>
      rw [List.flatMap_cons, List.append_assoc, Bytes.hexPair, List.cons_append, List.cons_append,
        List.nil_append, readHex_pair (hexDigit_ne_close (by have := b.toNat_lt; omega)), hexByte?_hexPair,
        Option.bind_some, ih]
      rfl

end Form

end PdfStore
