import Mathlib.Algebra.Order.Round
import Mathlib.Tactic.Linarith
import Mathlib.Tactic.Positivity
import PdfStore.Proofs.DecimalText
import PdfStore.Proofs.EqualReals

/-!
# The text of a real

A finite real is written as the multiple of a millionth that is nearest to its value (`IsNearest`), in plain notation and
without a superfluous digit.
-/

namespace PdfStore

/-! ## Rounding -/

/-- An integer is nearest to a number if it is not further than a half, and is even if it is that far. -/
structure IsNearest (q : ℚ) (k : ℤ) : Prop where
  near : 2 * |q - k| ≤ 1
  even : 2 * |q - k| = 1 → Even k

namespace IsNearest

variable {q : ℚ} {k j : ℤ}

theorem self (k : ℤ) : IsNearest k k := by
  constructor <;> simp

theorem neg (h : IsNearest q k) : IsNearest (-q) (-k) := by
  have habs : |(-q) - ((-k : ℤ) : ℚ)| = |q - k| := by
    rw [Int.cast_neg, ← abs_neg]
    congr 1
    ring
  constructor
  · rw [habs]
    exact h.near
  · rw [habs]
    exact fun hhalf => (h.even hhalf).neg

theorem signed (h : IsNearest q k) (negative : Bool) :
    IsNearest (DecimalText.signed negative q) (DecimalText.signed negative k) := by
  cases negative with
  | false => exact h
  | true => exact h.neg

theorem abs_le_half (h : IsNearest q k) : |q - k| ≤ 1 / 2 := by
  linarith [h.near]

theorem le (h : IsNearest q k) (h' : IsNearest q j) : j ≤ k := by
  by_contra hlt
  have hlt : k < j := not_le.1 hlt
  have hstep : (k : ℚ) + 1 ≤ j := by exact_mod_cast hlt
  have hk := (abs_le.1 h.abs_le_half).2
  have hj := (abs_le.1 h'.abs_le_half).1
  -- The number is in the middle between the two, and both would be even.
  have hhalf : q - k = 1 / 2 := by linarith
  have hhalf' : q - j = -(1 / 2) := by linarith
  have heven : Even k := h.even (by rw [hhalf]; norm_num)
  have heven' : Even j := h'.even (by rw [hhalf', abs_neg]; norm_num)
  have hj : j = k + 1 := by
    have hcast : (j : ℚ) = ((k + 1 : ℤ) : ℚ) := by
      push_cast
      linarith
    exact_mod_cast hcast
  rw [hj, Int.even_add_one] at heven'
  exact heven' heven

theorem unique (h : IsNearest q k) (h' : IsNearest q j) : k = j :=
  le_antisymm (h'.le h) (h.le h')

theorem iff_eq (h : IsNearest q k) : IsNearest q j ↔ j = k :=
  ⟨fun h' => h'.unique h, fun hj => hj ▸ h⟩

theorem below {part : ℚ} (hpart : 0 ≤ part) (h : 2 * part ≤ 1) (heven : 2 * part = 1 → Even k) :
    IsNearest (k + part) k := by
  have habs : |k + part - k| = part := by rw [add_sub_cancel_left, abs_of_nonneg hpart]
  constructor
  · rwa [habs]
  · rwa [habs]

theorem above {part : ℚ} (hpart : part ≤ 1) (h : 1 ≤ 2 * part) (heven : 2 * part = 1 → Even (k + 1)) :
    IsNearest (k + part) (k + 1) := by
  have habs : |k + part - ((k + 1 : ℤ) : ℚ)| = 1 - part := by
    rw [Int.cast_add, Int.cast_one, add_sub_add_left_eq_sub, abs_sub_comm, abs_of_nonneg (by linarith)]
  constructor
  · rw [habs]
    linarith
  · rw [habs]
    exact fun hhalf => heven (by linarith)

/-- The part that division leaves says which of the two neighbours is nearer. -/
theorem roundDiv (num : Nat) {den : Nat} (hden : 0 < den) :
    IsNearest ((num : ℚ) / den) ((PdfStore.roundDiv num den : Nat) : ℤ) := by
  have hsplit := Nat.div_add_mod num den
  have hlt := Nat.mod_lt num hden
  rw [PdfStore.roundDiv]
  generalize num / den = whole at hsplit
  generalize num % den = rest at hsplit hlt
  subst hsplit
  have hpos : (0 : ℚ) < den := by exact_mod_cast hden
  have hnum : ((den * whole + rest : Nat) : ℚ) / den = ((whole : ℤ) : ℚ) + rest / den := by
    push_cast
    field_simp
  have hpart : (0 : ℚ) ≤ rest / den := by positivity
  have hone : (rest : ℚ) / den ≤ 1 := by
    rw [div_le_one hpos]
    exact_mod_cast hlt.le
  rw [hnum]
  cases hc : compare (2 * rest) den with
  | lt =>
      have hlt : 2 * ((rest : ℚ) / den) < 1 := by
        rw [← mul_div_assoc, div_lt_one hpos]
        exact_mod_cast Nat.compare_eq_lt.1 hc
      exact below hpart hlt.le fun h => absurd h hlt.ne
  | gt =>
      have hgt : 1 < 2 * ((rest : ℚ) / den) := by
        rw [← mul_div_assoc, one_lt_div hpos]
        exact_mod_cast Nat.compare_eq_gt.1 hc
      exact above hone hgt.le fun h => absurd h hgt.ne'
  | eq =>
      have heq : 2 * ((rest : ℚ) / den) = 1 := by
        rw [← mul_div_assoc, div_eq_one_iff_eq hpos.ne']
        exact_mod_cast Nat.compare_eq_eq.1 hc
      simp only
      split
      · rename_i heven
        exact below hpart heq.le fun _ => (Int.even_coe_nat _).2 (Nat.even_iff.2 heven)
      · rename_i hodd
        refine above hone heq.ge fun _ => ?_
        exact_mod_cast Nat.even_add_one.2 (mt Nat.even_iff.1 hodd)

end IsNearest

namespace Dyadic

/-- The exact value. -/
def value (d : Dyadic) : ℚ := DecimalText.signed d.negative (d.mantissa * 2 ^ d.exponent)

/-- The number of millionths that is written. -/
def rounded (d : Dyadic) : ℤ := DecimalText.signed d.negative (d.millionths : ℤ)

theorem isNearest_millionths (d : Dyadic) :
    IsNearest (10 ^ 6 * (d.mantissa * 2 ^ d.exponent : ℚ)) (d.millionths : ℤ) := by
  rw [millionths]
  cases d.exponent with
  | ofNat e =>
      have hexact : (10 ^ 6 * (d.mantissa * 2 ^ (Int.ofNat e)) : ℚ) =
          ((d.mantissa * Nat.pow 2 e * 1000000 : Nat) : ℤ) := by
        simp only [Int.ofNat_eq_natCast, zpow_natCast, Nat.pow_eq]
        push_cast
        ring
      rw [hexact]
      exact .self _
  | negSucc e =>
      have hquotient : (10 ^ 6 * (d.mantissa * 2 ^ (Int.negSucc e)) : ℚ) =
          ((d.mantissa * 1000000 : Nat) : ℚ) / (Nat.pow 2 (e + 1) : Nat) := by
        simp only [zpow_negSucc, Nat.pow_eq]
        push_cast
        field_simp
        ring
      rw [hquotient]
      exact .roundDiv _ (Nat.pow_pos (by decide))

theorem isNearest_rounded (d : Dyadic) : IsNearest (10 ^ 6 * d.value) d.rounded := by
  have hsigned : 10 ^ 6 * d.value = DecimalText.signed d.negative (10 ^ 6 * (d.mantissa * 2 ^ d.exponent : ℚ)) := by
    rw [value, DecimalText.signed, DecimalText.signed]
    split
    · rw [mul_neg]
    · rfl
  rw [hsigned]
  exact d.isNearest_millionths.signed d.negative

end Dyadic

namespace Double

open Float.Model Float.Model.UnpackedFloat

def isNegative : Sign → Bool
  | .negative => true
  | .positive => false

/-- The exact value of a number that is finite. -/
def valueOf : UnpackedFloat → ℚ
  | .finite s m e _ => DecimalText.signed (isNegative s) (m * 2 ^ e)
  | _ => 0

theorem valueOf_zero (s : Sign) : valueOf (.zero s) = 0 := rfl

theorem valueOf_finite (s : Sign) {m : Nat} (e : ℤ) (hm : 0 < m) :
    valueOf (.finite s m e hm) = DecimalText.signed (isNegative s) (m * 2 ^ e : ℚ) := rfl

def value (x : Float) : ℚ := valueOf x.toModel.unpack

theorem isNegative_ofBitVec : ∀ s : BitVec 1, isNegative (.ofBitVec s) = (s.toNat == 1) := by decide

theorem exists_fields (x : Float) : ∃ s e m, x.toModel.unpack = ofFields s e m ∧
    x.toBits.toNat = s.toNat * 2 ^ 63 + e.toNat * 2 ^ 52 + m.toNat := by
  let b : BitVec Format.binary64.numBits := x.toModel.toBits.toBitVec
  exact ⟨unpackSign b, unpackExponent b, unpackMantissa b, rfl, toNat_bits b⟩

theorem ofFloat_eq {x : Float} {s : BitVec 1} {e : BitVec 11} {m : BitVec 52}
    (h : x.toBits.toNat = s.toNat * 2 ^ 63 + e.toNat * 2 ^ 52 + m.toNat) : Dyadic.ofFloat x =
      if e.toNat = 0 then ⟨s.toNat == 1, m.toNat, -1074⟩
      else ⟨s.toNat == 1, 2 ^ 52 + m.toNat, (e.toNat : ℤ) - 1075⟩ := by
  have hs := s.isLt
  have he := e.isLt
  have hm := m.isLt
  have hsign : x.toBits.toNat / Nat.pow 2 63 = s.toNat := by
    change x.toBits.toNat / 2 ^ 63 = s.toNat
    omega
  have hexponent : x.toBits.toNat / Nat.pow 2 52 % 2048 = e.toNat := by
    change x.toBits.toNat / 2 ^ 52 % 2048 = e.toNat
    omega
  have hfraction : x.toBits.toNat % Nat.pow 2 52 = m.toNat := by
    change x.toBits.toNat % 2 ^ 52 = m.toNat
    omega
  simp only [Dyadic.ofFloat, hsign, hexponent, hfraction, beq_iff_eq]
  rfl

theorem value_ofFloat {x : Float} (h : x.isFinite = true) : (Dyadic.ofFloat x).value = value x := by
  obtain ⟨s, e, m, hunpack, hbits⟩ := exists_fields x
  have hfinite : (ofFields s e m).isFinite = true := hunpack ▸ h
  rw [value, hunpack, ofFloat_eq hbits]
  by_cases he : e = -1#11
  · rw [ofFields, if_pos he] at hfinite
    by_cases hm : m = 0#52
    · rw [if_pos hm] at hfinite
      cases hfinite
    · rw [if_neg hm] at hfinite
      cases hfinite
  · by_cases hzero : e = 0#11
    · have hexponent : e.toNat = 0 := congrArg BitVec.toNat hzero
      rw [ofFields, if_neg he, if_pos hzero, if_pos hexponent]
      by_cases hm : m = 0#52
      · rw [dif_pos hm, hm, valueOf_zero]
        simp [Dyadic.value, DecimalText.signed]
      · rw [dif_neg hm, valueOf_finite, isNegative_ofBitVec, hexponent]
        rfl
    · have hne : e.toNat ≠ 0 := fun h => hzero (BitVec.eq_of_toNat_eq h)
      rw [ofFields, if_neg he, if_neg hzero, if_neg hne, valueOf_finite, isNegative_ofBitVec, toNat_append_one]
      rfl

variable {x : Float}

theorem text_injective {text text' : List Char}
    (h : Bytes.ofString (String.ofList text) = Bytes.ofString (String.ofList text')) : text = text' := by
  have htext := congrArg Form.text? h
  rw [Form.text?_ofString, Form.text?_ofString, Option.some.injEq] at htext
  exact String.ofList_injective htext

theorem bytes_of_finite (h : x.isFinite = true) (table : Option ReferenceTable) :
    (numberToken (.real x)).bytes table = .ok (Bytes.ofString (String.ofList (Dyadic.ofFloat x).fixedText)) := by
  rw [numberToken, Token.bytes, if_pos h]

theorem isNearest_rounded (h : x.isFinite = true) : IsNearest (10 ^ 6 * value x) (Dyadic.ofFloat x).rounded :=
  value_ofFloat h ▸ (Dyadic.ofFloat x).isNearest_rounded

theorem bytes_eq_iff {y : Float} (hx : x.isFinite = true) (hy : y.isFinite = true) (table : Option ReferenceTable) :
    (numberToken (.real y)).bytes table = (numberToken (.real x)).bytes table ↔
      (Dyadic.ofFloat y).rounded = (Dyadic.ofFloat x).rounded := by
  rw [bytes_of_finite hx, bytes_of_finite hy, Except.ok.injEq]
  constructor
  · intro h
    have hvalue := congrArg DecimalText.value? (text_injective h)
    rw [Dyadic.fixedText, Dyadic.fixedText, DecimalText.value?_millionthsText, DecimalText.value?_millionthsText,
      Option.some.injEq, DecimalText.signed_div, DecimalText.signed_div] at hvalue
    exact DecimalText.signed_div_injective hvalue
  · intro h
    rw [Dyadic.fixedText, Dyadic.fixedText, DecimalText.millionthsText_congr h]

/-- A finite real is written in plain notation, as the multiple of a millionth that it rounds to; whatever text with six
places that multiple has, what is written is the text trimmed. Two finite reals are written alike exactly if they round to
the same multiple. -/
theorem written_of_finite (hx : x.isFinite = true) (table : Option ReferenceTable) :
    ∃ (text : List Char) (k : ℤ), (numberToken (.real x)).bytes table = .ok (Bytes.ofString (String.ofList text)) ∧
      (∀ j, IsNearest (10 ^ 6 * value x) j ↔ j = k) ∧
      (∀ fixed ∈ DecimalText.sixPlaces.matches', DecimalText.value? fixed = some ((k : ℚ) / 10 ^ 6) →
        DecimalText.trimmed fixed = text) ∧
      text ∈ DecimalText.plain.matches' ∧ text ≠ [] ∧ text ≠ ['-', '0'] ∧
      (∀ c ∈ text, c.isDigit = true ∨ c = '-' ∨ c = '.') ∧ DecimalText.value? text = some ((k : ℚ) / 10 ^ 6) ∧
      ∀ y : Float, y.isFinite = true → ((numberToken (.real y)).bytes table = (numberToken (.real x)).bytes table ↔
        IsNearest (10 ^ 6 * value y) k) := by
  have htext : (Dyadic.ofFloat x).fixedText = millionthsText (Dyadic.ofFloat x).negative (Dyadic.ofFloat x).millionths := rfl
  obtain ⟨hne, hzero⟩ := DecimalText.trimmed_ne (DecimalText.sixPlacesText _ _)
  rw [DecimalText.trimmed_sixPlacesText] at hne hzero
  refine ⟨_, (Dyadic.ofFloat x).rounded, bytes_of_finite hx table, fun j => (isNearest_rounded hx).iff_eq,
    fun fixed h hvalue => DecimalText.trimmed_eq_millionthsText h hvalue, DecimalText.millionthsText_mem_plain _ _, hne, hzero,
    Form.mem_millionthsText, ?_, fun y hy => ?_⟩
  · rw [htext, DecimalText.value?_millionthsText, DecimalText.signed_div]
    rfl
  · rw [bytes_eq_iff hx hy, (isNearest_rounded hy).iff_eq, eq_comm]

/-- A real in the middle between two millionths is written as the even one. -/
theorem written_of_finite_half : ∃ x : Float, x.isFinite = true ∧ value x = 1 / 128 ∧
    (numberToken (.real x)).bytes none = .ok (Bytes.ofString "0.007812") ∧
    ∀ y : Float, y.isFinite = true →
      ((numberToken (.real y)).bytes none = .ok (Bytes.ofString "0.007812") ↔ IsNearest (10 ^ 6 * value y) 7812) := by
  have hfinite : (Float.ofBits 0x3F80000000000000).isFinite = true := by decide +kernel
  have hdyadic : Dyadic.ofFloat (Float.ofBits 0x3F80000000000000) = ⟨false, 4503599627370496, -59⟩ := by decide +kernel
  have hvalue : value (Float.ofBits 0x3F80000000000000) = 1 / 128 := by
    rw [← value_ofFloat hfinite, hdyadic, Dyadic.value, DecimalText.signed, if_neg Bool.false_ne_true]
    norm_num
  have hnearest : IsNearest (10 ^ 6 * value (Float.ofBits 0x3F80000000000000)) 7812 := by
    rw [hvalue]
    exact ⟨by norm_num [abs_of_pos], fun _ => by decide⟩
  obtain ⟨text, k, hbytes, hk, hfixed, -, -, -, -, -, halike⟩ := written_of_finite hfinite none
  obtain rfl : 7812 = k := (hk 7812).1 hnearest
  have htext : ['0', '.', '0', '0', '7', '8', '1', '2'] = text :=
    hfixed _ (DecimalText.mem_sixPlaces_iff.2 ⟨false, 7812, rfl⟩) (DecimalText.value?_sixPlacesText false 7812)
  subst htext
  exact ⟨_, hfinite, hvalue, hbytes, fun y hy => hbytes ▸ halike y hy⟩

end Double

end PdfStore
