import Mathlib.Data.List.Basic
import PdfStore.Proofs.Codecs

/-!
# What hexadecimal text stands for

A digit has its place among the sixteen digits of either case as value (`Hex.digit`), and a text of digits stands
for the bytes that they make two by two (`Hex.bytes`). The reader takes those texts and no others, white space and all
that follows the first `>` left out of account, and refuses the rest at the first byte that is no digit.
-/

namespace PdfStore

namespace Hex

def upper : Bytes := Bytes.ofString "0123456789ABCDEF"

def lower : Bytes := Bytes.ofString "0123456789abcdef"

def IsDigit (b : UInt8) : Prop := b ∈ upper ∨ b ∈ lower

instance (b : UInt8) : Decidable (IsDigit b) := inferInstanceAs (Decidable (_ ∨ _))

/-- The place of a digit among those of its case. -/
def digit (b : UInt8) : Nat := if b ∈ upper then upper.idxOf b else lower.idxOf b

/-- Byte `i` has the digits `2 * i` and `2 * i + 1`, a zero in the place of a missing last one. -/
def bytes (h : Bytes) : Bytes :=
  (List.range ((h.length + 1) / 2)).map fun i =>
    UInt8.ofNat (16 * digit (h.getD (2 * i) 0x30) + digit (h.getD (2 * i + 1) 0x30))

/-- Space, tab, line feed, form feed and carriage return. -/
def blanks : Bytes := [0x20, 0x09, 0x0A, 0x0C, 0x0D]

/-- A text, and the same with white space anywhere in it. -/
inductive Spread : Bytes → Bytes → Prop
  | nil : Spread [] []
  | blank {text spread : Bytes} {b : UInt8} (hb : b ∈ blanks) (h : Spread text spread) : Spread text (b :: spread)
  | byte {text spread : Bytes} (b : UInt8) (h : Spread text spread) : Spread (b :: text) (b :: spread)

/-! ## Digits -/

theorem forall_byte {P : UInt8 → Prop} (h : ∀ n < 256, P (UInt8.ofNat n)) (b : UInt8) : P b := by
  have hb := h b.toNat b.toNat_lt
  rwa [UInt8.ofNat_toNat] at hb

theorem hexValue?_eq (b : UInt8) : Bytes.hexValue? b = if IsDigit b then some (digit b) else none := by
  revert b
  refine forall_byte ?_
  decide +kernel

theorem hexValue?_of_isDigit {b : UInt8} (hb : IsDigit b) : Bytes.hexValue? b = some (digit b) := by
  rw [hexValue?_eq, if_pos hb]

theorem hexValue?_of_not_isDigit {b : UInt8} (hb : ¬IsDigit b) : Bytes.hexValue? b = none := by
  rw [hexValue?_eq, if_neg hb]

theorem digit_zero : digit 0x30 = 0 := by decide

theorem isDigit_hexDigit {n : Nat} (h : n < 16) : IsDigit (Bytes.hexDigit n) := by
  revert n
  decide

theorem not_isDigit_of_mem_blanks {b : UInt8} (hb : b ∈ blanks) : ¬IsDigit b := by
  simp only [blanks, List.mem_cons, List.not_mem_nil, or_false] at hb
  rcases hb with rfl | rfl | rfl | rfl | rfl <;> decide

theorem isBlank_eq (b : UInt8) : Bytes.isBlank b = decide (b ∈ blanks) := by
  revert b
  refine forall_byte ?_
  decide +kernel

/-! ## Pairs of digits -/

theorem bytes_singleton (a : UInt8) : bytes [a] = [UInt8.ofNat (16 * digit a)] := by
  simp [bytes, digit_zero]

theorem bytes_cons_cons (a b : UInt8) (h : Bytes) :
    bytes (a :: b :: h) = UInt8.ofNat (16 * digit a + digit b) :: bytes h := by
  have hlength : ((a :: b :: h).length + 1) / 2 = (h.length + 1) / 2 + 1 := by
    simp only [List.length_cons]
    omega
  rw [bytes, hlength, List.range_succ_eq_map, List.map_cons, List.map_map]
  rfl

end Hex

namespace AsciiHex

open Hex

theorem pairs_of_digits (position : Nat) : (h : Bytes) → (∀ b ∈ h, IsDigit b) → pairs position h = .ok (bytes h)
  | [], _ => rfl
  | [a], h => by
      rw [pairs, hexValue?_of_isDigit (h a List.mem_cons_self), bytes_singleton]
  | a :: b :: rest, h => by
      obtain ⟨ha, h⟩ := List.forall_mem_cons.1 h
      obtain ⟨hb, h⟩ := List.forall_mem_cons.1 h
      rw [pairs, hexValue?_of_isDigit ha, hexValue?_of_isDigit hb, bytes_cons_cons]
      simp only [pairs_of_digits (position + 2) rest h]
      rfl

/-- The first byte that is no digit is the one that is refused. -/
theorem pairs_of_not_isDigit {b : UInt8} (hb : ¬IsDigit b) (rest : Bytes) (position : Nat) :
    (good : Bytes) → (∀ c ∈ good, IsDigit c) →
      pairs position (good ++ b :: rest) = .error (.badDigit b (position + good.length))
  | [], _ => by
      cases rest with
      | nil => rw [List.nil_append, pairs, hexValue?_of_not_isDigit hb]; rfl
      | cons c rest => rw [List.nil_append, pairs, hexValue?_of_not_isDigit hb]; rfl
  | [a], h => by
      rw [List.cons_append, List.nil_append, pairs, hexValue?_of_isDigit (h a List.mem_cons_self),
        hexValue?_of_not_isDigit hb]
      rfl
  | a :: c :: good, h => by
      obtain ⟨ha, h⟩ := List.forall_mem_cons.1 h
      obtain ⟨hc, h⟩ := List.forall_mem_cons.1 h
      rw [List.cons_append, List.cons_append, pairs, hexValue?_of_isDigit ha, hexValue?_of_isDigit hc]
      simp only [pairs_of_not_isDigit hb rest (position + 2) good h, List.length_cons]
      rw [Nat.add_assoc, Nat.add_comm 2]
      rfl

/-! ## White space -/

/-- What counts of a text is what stands before the first `>`, without white space. -/
theorem digits_eq (x : Bytes) : digits x = (x.takeWhile (· ≠ 0x3E)).filter (· ∉ blanks) := by
  have hmark : '>'.toUInt8 = 0x3E := rfl
  simp only [digits, hmark, isBlank_eq, decide_not]

theorem filter_spread {text spread : Bytes} (h : Spread text spread) (htext : ∀ b ∈ text, b ∉ blanks) :
    spread.filter (· ∉ blanks) = text := by
  induction h with
  | nil => rfl
  | blank hb _ ih =>
      rw [List.filter_cons_of_neg (by simp [hb])]
      exact ih htext
  | byte b _ ih =>
      obtain ⟨hb, htext⟩ := List.forall_mem_cons.1 htext
      rw [List.filter_cons_of_pos (by simp [hb]), ih htext]

theorem mem_spread {text spread : Bytes} (h : Spread text spread) {b : UInt8} (hb : b ∈ spread) :
    b ∈ text ∨ b ∈ blanks := by
  induction h with
  | nil => cases hb
  | blank hblank _ ih =>
      rcases List.mem_cons.1 hb with rfl | hb
      · exact Or.inr hblank
      · exact ih hb
  | byte c _ ih =>
      rcases List.mem_cons.1 hb with rfl | hb
      · exact Or.inl List.mem_cons_self
      · exact (ih hb).imp_left (List.mem_cons_of_mem c)

/-- White space before the mark and all that stands behind it leave the digits as they are. -/
theorem digits_spread {text spread : Bytes} (h : Spread text spread) (htext : ∀ b ∈ text, IsDigit b) (rest : Bytes) :
    digits (spread ++ 0x3E :: rest) = text := by
  have hblank : ∀ b ∈ text, b ∉ blanks := fun b hb hmem => not_isDigit_of_mem_blanks hmem (htext b hb)
  have hmark : ∀ b ∈ spread, decide (b ≠ 0x3E) = true := by
    intro b hb
    rw [decide_eq_true_eq]
    rintro rfl
    rcases mem_spread h hb with hb | hb
    · exact absurd (htext _ hb) (by decide)
    · exact absurd hb (by decide)
  rw [digits_eq, List.takeWhile_append_of_pos hmark, List.takeWhile_cons_of_neg (by decide), List.append_nil,
    filter_spread h hblank]

/-! ## The reader -/

variable {x h : Bytes}

theorem digits_or_fault (h : Bytes) :
    (∀ b ∈ h, IsDigit b) ∨ ∃ good b rest, h = good ++ b :: rest ∧ (∀ c ∈ good, IsDigit c) ∧ ¬IsDigit b := by
  induction h with
  | nil => exact Or.inl (List.forall_mem_nil _)
  | cons a h ih =>
      by_cases ha : IsDigit a
      · rcases ih with hh | ⟨good, b, rest, rfl, hgood, hb⟩
        · exact Or.inl (List.forall_mem_cons.2 ⟨ha, hh⟩)
        · exact Or.inr ⟨a :: good, b, rest, rfl, List.forall_mem_cons.2 ⟨ha, hgood⟩, hb⟩
      · exact Or.inr ⟨[], a, h, rfl, List.forall_mem_nil _, ha⟩

theorem decode_of_digits (hx : digits x = h) (hh : ∀ b ∈ h, IsDigit b) : codec.decode x = .ok (bytes h) := by
  change pairs 0 (digits x) = _
  rw [hx, pairs_of_digits 0 h hh]

theorem decode_of_fault {good rest : Bytes} {b : UInt8} (hx : digits x = good ++ b :: rest)
    (hgood : ∀ c ∈ good, IsDigit c) (hb : ¬IsDigit b) : codec.decode x = .error (.badDigit b good.length) := by
  change pairs 0 (digits x) = _
  rw [hx, pairs_of_not_isDigit hb rest 0 good hgood, Nat.zero_add]

theorem decode_ok_iff (hx : digits x = h) {out : Bytes} :
    codec.decode x = .ok out ↔ (∀ b ∈ h, IsDigit b) ∧ out = bytes h := by
  constructor
  · intro hout
    rcases digits_or_fault h with hh | ⟨good, b, rest, rfl, hgood, hb⟩
    · rw [decode_of_digits hx hh] at hout
      exact ⟨hh, (Except.ok.inj hout).symm⟩
    · rw [decode_of_fault hx hgood hb] at hout
      cases hout
  · rintro ⟨hh, rfl⟩
    exact decode_of_digits hx hh

theorem decode_error_iff (hx : digits x = h) {e : CodecError} :
    codec.decode x = .error e ↔
      ∃ good b rest, h = good ++ b :: rest ∧ (∀ c ∈ good, IsDigit c) ∧ ¬IsDigit b ∧ e = .badDigit b good.length := by
  constructor
  · intro he
    rcases digits_or_fault h with hh | ⟨good, b, rest, rfl, hgood, hb⟩
    · rw [decode_of_digits hx hh] at he
      cases he
    · rw [decode_of_fault hx hgood hb] at he
      exact ⟨good, b, rest, rfl, hgood, hb, (Except.error.inj he).symm⟩
  · rintro ⟨good, b, rest, rfl, hgood, hb, rfl⟩
    exact decode_of_fault hx hgood hb

theorem isDigit_of_mem_hexPairs {data : Bytes} : ∀ b ∈ data.flatMap Bytes.hexPair, IsDigit b := by
  intro b hb
  obtain ⟨n, hn, rfl⟩ := mem_hexPairs hb
  exact isDigit_hexDigit hn

/-- Of a text count the bytes before the first `>`, all if there is none, less the white space. It is read if these
are digits, as the bytes that they make two by two; else it is refused for the first that is not one. What is written
of any data is read back as that data, with white space anywhere before the mark and anything behind it. -/
theorem reads_digits_only :
    (∀ x : Bytes, let h := (x.takeWhile (· ≠ 0x3E)).filter (· ∉ blanks)
      (∀ out, codec.decode x = .ok out ↔ (∀ b ∈ h, IsDigit b) ∧ out = bytes h) ∧
      ∀ e, codec.decode x = .error e ↔ ∃ good b rest, h = good ++ b :: rest ∧ (∀ c ∈ good, IsDigit c) ∧
        ¬IsDigit b ∧ e = .badDigit b good.length) ∧
    ∀ data : Bytes, ∃ text, codec.encode data = .ok (text ++ [0x3E]) ∧ 0x3E ∉ text ∧
      ∀ spread rest, Spread text spread → codec.decode (spread ++ 0x3E :: rest) = .ok data := by
  refine ⟨fun x => ⟨fun out => decode_ok_iff (digits_eq x), fun e => decode_error_iff (digits_eq x)⟩, fun data => ?_⟩
  refine ⟨data.flatMap Bytes.hexPair, rfl, fun hmark => ?_, fun spread rest hspread => ?_⟩
  · exact absurd (isDigit_of_mem_hexPairs _ hmark) (by decide)
  · change pairs 0 (digits _) = _
    rw [digits_spread hspread isDigit_of_mem_hexPairs, pairs_hexPairs]

/-- A line feed between two digits of a byte, blanks around, and a second mark behind the first. -/
theorem reads_digits_only_of_spread :
    Spread (Bytes.ofString "01AB") (Bytes.ofString " 0\n1A B\t") ∧
      codec.decode (Bytes.ofString " 0\n1A B\t>zz>") = .ok [0x01, 0xAB] := by
  have hspread : Spread (Bytes.ofString "01AB") (Bytes.ofString " 0\n1A B\t") :=
    .blank (by decide) (.byte _ (.blank (by decide) (.byte _ (.byte _ (.blank (by decide) (.byte _
      (.blank (by decide) .nil)))))))
  obtain ⟨text, hencode, -, hdecode⟩ := reads_digits_only.2 [0x01, 0xAB]
  have htext : text = Bytes.ofString "01AB" := List.append_cancel_right (Except.ok.inj hencode).symm
  exact ⟨hspread, hdecode _ (Bytes.ofString "zz>") (htext ▸ hspread)⟩

end AsciiHex

end PdfStore
