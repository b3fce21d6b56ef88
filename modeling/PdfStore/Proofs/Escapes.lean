import PdfStore.Proofs.HexText

/-!
# Names and strings by the reading rules

A name is read by putting a byte in the place of each `#` and its two digits, a literal string by its escapes: a
backslash with a letter or delimiter, or with as many octal digits as follow, three at most. A code with fewer digits
would take in a digit that follows it, so `literalByte` writes all three.
-/

namespace PdfStore

open Hex

/-- Printable ASCII, the blank among it. -/
def IsPrintable (b : UInt8) : Prop := 0x20 ≤ b ∧ b ≤ 0x7E

/-- Printable ASCII other than white space and delimiters. -/
def IsRegular (b : UInt8) : Prop := IsPrintable b ∧ b ≠ 0x20 ∧ b ∉ Bytes.ofString "()<>[]\x7b\x7d/%"

instance (b : UInt8) : Decidable (IsPrintable b) := inferInstanceAs (Decidable (_ ∧ _))

instance (b : UInt8) : Decidable (IsRegular b) := inferInstanceAs (Decidable (_ ∧ _))

namespace Literal

/-- Where a byte first stands outside of an escape. -/
def unescaped? (c : UInt8) : Bytes → Option Nat
  | [] => none
  | b :: rest =>
    if b = c then some 0
    else if b = 0x5C then
      match rest with
      | [] => none
      | _ :: rest => (unescaped? c rest).map (· + 2)
    else (unescaped? c rest).map (· + 1)

def IsOctal (b : UInt8) : Prop := 0x30 ≤ b ∧ b ≤ 0x37

instance (b : UInt8) : Decidable (IsOctal b) := inferInstanceAs (Decidable (_ ∧ _))

/-- The octal digits at the front, as many as belong to one code. -/
def code (b : Bytes) : Bytes := (b.take 3).takeWhile (IsOctal ·)

/-- The byte of a code; what exceeds a byte is lost. -/
def codeByte (digits : Bytes) : UInt8 := UInt8.ofNat (digits.foldl (fun n d => 8 * n + (d.toNat - 0x30)) 0)

/-- The bytes that stand for a text between parentheses. A backslash before a byte that needs none is passed over. -/
def decode : Bytes → Bytes
  | [] => []
  | b :: rest =>
    if b ≠ 0x5C then b :: decode rest
    else if code rest ≠ [] then codeByte (code rest) :: decode (rest.drop (code rest).length)
    else
      match rest with
      | [] => []
      | c :: rest => Form.escaped c :: decode rest
termination_by b => b.length
decreasing_by all_goals simp only [List.length_drop, List.length_cons]; omega

/-! ## What a byte is written as -/

theorem isOctal_digit {n : Nat} (h : n < 8) : IsOctal (UInt8.ofNat (48 + n)) := by
  revert n
  decide

theorem codeByte_digits (b : UInt8) :
    codeByte ([b.toNat / 64, b.toNat / 8 % 8, b.toNat % 8].map fun d => UInt8.ofNat (48 + d)) = b := by
  have hb := b.toNat_lt
  refine UInt8.toNat_inj.1 ?_
  simp only [codeByte, List.map_cons, List.map_nil, List.foldl_cons, List.foldl_nil, UInt8.toNat_ofNat']
  omega

/-- A byte is written as itself, as an escape of two bytes, or as a code of three digits. -/
theorem literalByte_cases (b : UInt8) :
    (literalByte b = [b] ∧ IsPrintable b ∧ b ≠ 0x28 ∧ b ≠ 0x29 ∧ b ≠ 0x5C) ∨
      (∃ c, literalByte b = [0x5C, c] ∧ IsPrintable c ∧ ¬IsOctal c ∧ Form.escaped c = b) ∨
      ∃ x y z, literalByte b = [0x5C, x, y, z] ∧ IsOctal x ∧ IsOctal y ∧ IsOctal z ∧ codeByte [x, y, z] = b := by
  unfold literalByte
  split
  · rename_i h
    simp only [Bool.or_eq_true, beq_iff_eq] at h
    exact Or.inr (Or.inl ⟨b, rfl, by rcases h with (rfl | rfl) | rfl <;> decide⟩)
  split
  · rename_i h
    exact Or.inr (Or.inl ⟨0x6E, rfl, by rw [eq_of_beq h]; decide⟩)
  split
  · rename_i h
    exact Or.inr (Or.inl ⟨0x72, rfl, by rw [eq_of_beq h]; decide⟩)
  split
  · rename_i h
    exact Or.inr (Or.inl ⟨0x74, rfl, by rw [eq_of_beq h]; decide⟩)
  split
  · rename_i h
    exact Or.inr (Or.inl ⟨0x62, rfl, by rw [eq_of_beq h]; decide⟩)
  split
  · rename_i h
    exact Or.inr (Or.inl ⟨0x66, rfl, by rw [eq_of_beq h]; decide⟩)
  split
  · rename_i h₁ _ _ _ _ _ h₂
    simp only [Bool.or_eq_true, beq_iff_eq, not_or] at h₁
    simp only [Bool.and_eq_true, decide_eq_true_eq] at h₂
    exact Or.inl ⟨rfl, h₂, h₁.1.1, h₁.1.2, h₁.2⟩
  · have hb := b.toNat_lt
    exact Or.inr (Or.inr ⟨_, _, _, rfl, isOctal_digit (by omega), isOctal_digit (by omega), isOctal_digit (by omega),
      codeByte_digits b⟩)

theorem isPrintable_of_isOctal {b : UInt8} (hb : IsOctal b) : IsPrintable b :=
  ⟨UInt8.le_trans (by decide) hb.1, UInt8.le_trans hb.2 (by decide)⟩

theorem ne_of_isOctal {b c : UInt8} (hb : IsOctal b) (hc : ¬IsOctal c) : b ≠ c := by
  rintro rfl
  exact hc hb

theorem isPrintable_literalByte (b : UInt8) : ∀ c ∈ literalByte b, IsPrintable c := by
  rcases literalByte_cases b with ⟨h, hb, -⟩ | ⟨c, h, hc, -⟩ | ⟨x, y, z, h, hx, hy, hz, -⟩
  · rw [h]
    exact List.forall_mem_singleton.2 hb
  · rw [h]
    exact List.forall_mem_cons.2 ⟨by decide, List.forall_mem_singleton.2 hc⟩
  · rw [h]
    exact List.forall_mem_cons.2 ⟨by decide, List.forall_mem_cons.2 ⟨isPrintable_of_isOctal hx,
      List.forall_mem_cons.2 ⟨isPrintable_of_isOctal hy, List.forall_mem_singleton.2 (isPrintable_of_isOctal hz)⟩⟩⟩

/-! ## Parentheses -/

theorem unescaped?_of_ne {b c : UInt8} (hc : b ≠ c) (hb : b ≠ 0x5C) (r : Bytes) :
    unescaped? c (b :: r) = (unescaped? c r).map (· + 1) := by
  rw [unescaped?.eq_def]
  exact (if_neg hc).trans (if_neg hb)

theorem unescaped?_escape {c : UInt8} (hc : c ≠ 0x5C) (b : UInt8) (r : Bytes) :
    unescaped? c (0x5C :: b :: r) = (unescaped? c r).map (· + 2) := by
  rw [unescaped?.eq_def]
  exact (if_neg hc.symm).trans (if_pos rfl)

/-- A parenthesis in a text is escaped. -/
theorem unescaped?_literalByte {c : UInt8} (hc : c = 0x28 ∨ c = 0x29) (b : UInt8) (r : Bytes) :
    unescaped? c (literalByte b ++ r) = (unescaped? c r).map (· + (literalByte b).length) := by
  have hslash : c ≠ 0x5C := by rcases hc with rfl | rfl <;> decide
  have hoctal : ¬IsOctal c := by rcases hc with rfl | rfl <;> decide
  rcases literalByte_cases b with ⟨h, -, h₁, h₂, h₃⟩ | ⟨d, h, -⟩ | ⟨x, y, z, h, hx, hy, hz, -⟩
  · have hne : b ≠ c := by rcases hc with rfl | rfl <;> assumption
    rw [h]
    exact unescaped?_of_ne hne h₃ r
  · rw [h]
    exact unescaped?_escape hslash d r
  · rw [h]
    refine (unescaped?_escape hslash x (y :: z :: r)).trans ?_
    rw [unescaped?_of_ne (ne_of_isOctal hy hoctal) (ne_of_isOctal hy (by decide)),
      unescaped?_of_ne (ne_of_isOctal hz hoctal) (ne_of_isOctal hz (by decide)), Option.map_map, Option.map_map]
    rfl

theorem unescaped?_append {c : UInt8} (hc : c = 0x28 ∨ c = 0x29) (s r : Bytes) :
    unescaped? c (s.flatMap literalByte ++ r) =
      (unescaped? c r).map (· + (s.flatMap literalByte).length) := by
  induction s with
  | nil => simp
  | cons b s ih =>
      rw [List.flatMap_cons, List.append_assoc, unescaped?_literalByte hc, ih, Option.map_map, List.length_append]
      refine Option.map_congr fun n _ => ?_
      simp only [Function.comp_apply]
      omega

/-! ## Escapes -/

theorem decode_plain {b : UInt8} (hb : b ≠ 0x5C) (r : Bytes) : decode (b :: r) = b :: decode r := by
  rw [decode.eq_def]
  exact if_pos hb

theorem decode_escape {c : UInt8} (hc : ¬IsOctal c) (r : Bytes) :
    decode (0x5C :: c :: r) = Form.escaped c :: decode r := by
  have hcode : code (c :: r) = [] := by simp [code, hc]
  rw [decode.eq_def]
  exact (if_neg (by decide)).trans (if_neg (by simp [hcode]))

/-- Three digits are a code whatever follows them. -/
theorem decode_code {x y z : UInt8} (hx : IsOctal x) (hy : IsOctal y) (hz : IsOctal z) (r : Bytes) :
    decode (0x5C :: x :: y :: z :: r) = codeByte [x, y, z] :: decode r := by
  have hcode : code (x :: y :: z :: r) = [x, y, z] := by simp [code, hx, hy, hz]
  rw [decode.eq_def]
  refine (if_neg (by decide)).trans ((if_pos (by simp [hcode])).trans ?_)
  rw [hcode]
  rfl

theorem decode_literalByte (b : UInt8) (r : Bytes) : decode (literalByte b ++ r) = b :: decode r := by
  rcases literalByte_cases b with ⟨h, -, -, -, hb⟩ | ⟨c, h, -, hc, hb⟩ | ⟨x, y, z, h, hx, hy, hz, hb⟩
  · rw [h]
    exact decode_plain hb r
  · rw [h]
    exact (decode_escape hc r).trans (hb ▸ rfl)
  · rw [h]
    exact (decode_code hx hy hz r).trans (hb ▸ rfl)

theorem decode_flatMap (s : Bytes) : decode (s.flatMap literalByte) = s := by
  induction s with
  | nil => exact decode.eq_def []
  | cons b s ih => rw [List.flatMap_cons, decode_literalByte, ih]

end Literal

/-! ## Names -/

theorem isRegular_of_not_needsEscape : ∀ b, needsEscape b = false → IsRegular b :=
  forall_byte (by decide +kernel)

theorem isRegular_hexDigit {n : Nat} (h : n < 16) : IsRegular (Bytes.hexDigit n) := by
  revert n
  decide

theorem isRegular_nameBytes (n : Name) : ∀ b ∈ nameBytes n, IsRegular b := by
  intro b hb
  obtain ⟨c, -, hb⟩ := List.mem_flatMap.1 hb
  have hc := c.toNat_lt
  split at hb
  · simp only [Bytes.hexPair, List.mem_cons, List.not_mem_nil, or_false] at hb
    rcases hb with rfl | rfl | rfl
    · decide
    · exact isRegular_hexDigit (by omega)
    · exact isRegular_hexDigit (by omega)
  · rename_i hescape
    rw [List.mem_singleton.1 hb]
    exact isRegular_of_not_needsEscape c (Bool.eq_false_iff.2 hescape)

theorem data_toUTF8 (s : String) : s.toUTF8.data.toList = Bytes.ofString s := by
  rw [String.toUTF8_eq_toByteArray, ← String.utf8Encode_toList]
  exact List.toList_data_toByteArray

/-! ## The three forms -/

/-- A name is written in regular bytes and stands for its text. A literal string is written in printable bytes between
parentheses, of which none but the last is unescaped, a hexadecimal one in digits between brackets; both stand for the
bytes of the string, whatever they are. -/
theorem names_and_strings_read_back (table : Option ReferenceTable) (n : Name) (s : Bytes) :
    (∃ body, (nameToken n).bytes table = .ok (0x2F :: body) ∧ (∀ b ∈ body, IsRegular b) ∧
      Form.unescape? body = some n.toUTF8.data.toList) ∧
    (∃ body, (stringToken ⟨s, .literal⟩).bytes table = .ok (0x28 :: (body ++ [0x29])) ∧
      (∀ b ∈ body, IsPrintable b) ∧ Literal.unescaped? 0x29 (body ++ [0x29]) = some body.length ∧
      Literal.unescaped? 0x28 (body ++ [0x29]) = none ∧ Literal.decode body = s) ∧
    ∃ body, (stringToken ⟨s, .hex⟩).bytes table = .ok (0x3C :: (body ++ [0x3E])) ∧
      (∀ b ∈ body, IsDigit b) ∧ bytes body = s := by
  refine ⟨⟨nameBytes n, rfl, isRegular_nameBytes n, ?_⟩, ⟨s.flatMap literalByte, rfl, fun b hb => ?_, ?_, ?_, ?_⟩,
    ⟨s.flatMap Bytes.hexPair, rfl, AsciiHex.isDigit_of_mem_hexPairs, ?_⟩⟩
  · rw [data_toUTF8, Form.unescape?_nameBytes]
  · obtain ⟨c, -, hb⟩ := List.mem_flatMap.1 hb
    exact Literal.isPrintable_literalByte c b hb
  · rw [Literal.unescaped?_append (Or.inr rfl)]
    exact congrArg some (Nat.zero_add _)
  · rw [Literal.unescaped?_append (Or.inl rfl)]
    rfl
  · exact Literal.decode_flatMap s
  · have hpairs := AsciiHex.pairs_of_digits 0 _ (@AsciiHex.isDigit_of_mem_hexPairs s)
    rw [AsciiHex.pairs_hexPairs] at hpairs
    exact (Except.ok.inj hpairs).symm

end PdfStore
