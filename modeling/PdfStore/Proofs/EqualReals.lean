import Mathlib.Algebra.Group.Nat.Defs
import PdfStore.Object.Written

/-!
# Equal reals

Two reals that compare equal are the same or both zero, of either sign; a NaN compares equal to nothing. Zeros are
written without a sign, so equal reals are written alike.
-/

namespace PdfStore

namespace Double

open Float.Model Float.Model.UnpackedFloat

/-! ## The bits of a real -/

theorem toNat_bits (b : BitVec Format.binary64.numBits) :
    b.toNat = (unpackSign b).toNat * 2 ^ 63 + (unpackExponent b).toNat * 2 ^ 52 + (unpackMantissa b).toNat := by
  have hb : b.toNat < 2 ^ 64 := b.isLt
  have hpart : ∀ low high width h, ((b.extractLsb high low).cast h : BitVec width).toNat =
      b.toNat / 2 ^ low % 2 ^ (high - low + 1) := by
    intro low high width h
    rw [BitVec.toNat_cast, BitVec.extractLsb_toNat, Nat.shiftRight_eq_div_pow]
  have hsign : (unpackSign b).toNat = b.toNat / 2 ^ 63 % 2 := hpart 63 63 1 _
  have hexponent : (unpackExponent b).toNat = b.toNat / 2 ^ 52 % 2 ^ 11 := hpart 52 62 11 _
  have hmantissa : (unpackMantissa b).toNat = b.toNat / 2 ^ 0 % 2 ^ 52 := hpart 0 51 52 _
  omega

theorem toNat_append_one (m : BitVec 52) : (1#1 ++ m).toNat = 2 ^ 52 + m.toNat := by
  rw [BitVec.toNat_append, ← Nat.shiftLeft_add_eq_or_of_lt m.isLt]
  rfl

def signBit : Sign → Nat
  | .negative => 1
  | .positive => 0

theorem signBit_ofBitVec : ∀ s : BitVec 1, signBit (.ofBitVec s) = s.toNat := by decide

/-- The bits of a number; NaN has several forms. -/
def code : UnpackedFloat → Nat
  | .notANumber => 0
  | .infinity s => signBit s * 2 ^ 63 + 2047 * 2 ^ 52
  | .zero s => signBit s * 2 ^ 63
  | .finite s m e _ => signBit s * 2 ^ 63 + if m < 2 ^ 52 then m else (e + 1075).toNat * 2 ^ 52 + (m - 2 ^ 52)

theorem code_infinity (s : Sign) : code (.infinity s) = signBit s * 2 ^ 63 + 2047 * 2 ^ 52 := rfl

theorem code_zero (s : Sign) : code (.zero s) = signBit s * 2 ^ 63 := rfl

theorem code_finite (s : Sign) {m : Nat} (e : Int) (hm : 0 < m) : code (.finite s m e hm) =
    signBit s * 2 ^ 63 + if m < 2 ^ 52 then m else (e + 1075).toNat * 2 ^ 52 + (m - 2 ^ 52) := rfl

/-- The number that has this sign, exponent and mantissa. -/
def ofFields (s : BitVec 1) (e : BitVec 11) (m : BitVec 52) : UnpackedFloat :=
  if e = -1#11 then if m = 0#52 then .infinity (.ofBitVec s) else .notANumber
  else if e = 0#11 then
    if h : m = 0#52 then .zero (.ofBitVec s)
    else .finite (.ofBitVec s) m.toNat ((e.toNat : Int) - 1075 + 1) (by simpa [BitVec.toNat_pos, BitVec.pos_iff_ne_zero])
  else .finite (.ofBitVec s) (1#1 ++ m).toNat ((e.toNat : Int) - 1075) (by rw [toNat_append_one]; omega)

theorem code_ofFields {s : BitVec 1} {e : BitVec 11} {m : BitVec 52} (h : ofFields s e m ≠ .notANumber) :
    code (ofFields s e m) = s.toNat * 2 ^ 63 + e.toNat * 2 ^ 52 + m.toNat := by
  have hm := m.isLt
  by_cases he : e = -1#11
  · by_cases hzero : m = 0#52
    · rw [ofFields, if_pos he, if_pos hzero, code_infinity, signBit_ofBitVec, he, hzero]
      simp
    · rw [ofFields, if_pos he, if_neg hzero] at h
      exact absurd rfl h
  · by_cases he' : e = 0#11
    · by_cases hzero : m = 0#52
      · rw [ofFields, if_neg he, if_pos he', dif_pos hzero, code_zero, signBit_ofBitVec, he', hzero]
        simp
      · rw [ofFields, if_neg he, if_pos he', dif_neg hzero, code_finite, signBit_ofBitVec, if_pos hm, he']
        simp
    · rw [ofFields, if_neg he, if_neg he', code_finite, signBit_ofBitVec, toNat_append_one, if_neg (by omega)]
      omega

theorem code_unpack {b : BitVec Format.binary64.numBits}
    (h : UnpackedFloat.unpack .binary64 b ≠ .notANumber) : code (UnpackedFloat.unpack .binary64 b) = b.toNat := by
  rw [toNat_bits]
  exact code_ofFields h

/-! ## Comparing -/

theorem eq_of_compare_parts {m m' : Nat} {e e' : Int} (h : (compare e e').then (compare m m') = .eq) :
    e = e' ∧ m = m' := by
  rw [Ordering.then_eq_eq, Std.compare_eq_iff_eq, Std.compare_eq_iff_eq] at h
  exact h

theorem eq_or_zero_of_compare {u v : UnpackedFloat} (h : u.compare v = some .eq) :
    u = v ∧ u ≠ .notANumber ∨ (∃ s, u = .zero s) ∧ ∃ s, v = .zero s := by
  cases u with
  | notANumber => cases h
  | zero s =>
      refine Or.inr ⟨⟨s, rfl⟩, ?_⟩
      cases v with
      | notANumber => cases h
      | zero s' => exact ⟨s', rfl⟩
      | infinity s' => cases s' <;> cases h
      | finite s' m e hm => cases s' <;> cases h
  | infinity s =>
      refine Or.inl ⟨?_, nofun⟩
      cases v with
      | notANumber => cases s <;> cases h
      | zero s' => cases s <;> cases h
      | infinity s' => cases s <;> cases s' <;> first | rfl | cases h
      | finite s' m e hm => cases s <;> cases h
  | finite s m e hm =>
      refine Or.inl ⟨?_, nofun⟩
      cases v with
      | notANumber => cases s <;> cases h
      | zero s' => cases s <;> cases h
      | infinity s' => cases s <;> cases s' <;> cases h
      | finite s' m' e' hm' =>
          cases s with
          | negative =>
              cases s' with
              | negative =>
                  obtain ⟨rfl, rfl⟩ := eq_of_compare_parts (Ordering.swap_eq_eq.1 (Option.some.inj h))
                  rfl
              | positive => cases h
          | positive =>
              cases s' with
              | negative => cases h
              | positive =>
                  obtain ⟨rfl, rfl⟩ := eq_of_compare_parts (Option.some.inj h)
                  rfl

def IsZero (x : Float) : Prop := ∃ s, x.toModel.unpack = .zero s

theorem IsZero.toBits {x : Float} (h : IsZero x) : x.toBits.toNat % 2 ^ 63 = 0 := by
  obtain ⟨s, hs⟩ := h
  have hcode : code x.toModel.unpack = x.toBits.toNat := code_unpack (hs ▸ nofun : x.toModel.unpack ≠ _)
  rw [← hcode, hs, code_zero, Nat.mul_mod_left]

theorem eq_or_zero_of_beq {x y : Float} (h : (x == y) = true) : x = y ∨ IsZero x ∧ IsZero y := by
  have h : x.toModel.unpack.compare y.toModel.unpack = some .eq := beq_iff_eq.1 h
  rcases eq_or_zero_of_compare h with ⟨heq, hn⟩ | hzero
  · refine Or.inl ?_
    have hbits : x.toModel.toBits.toNat = y.toModel.toBits.toNat := by
      refine (code_unpack hn).symm.trans ((congrArg code heq).trans (code_unpack ?_))
      exact (heq ▸ hn : y.toModel.unpack ≠ _)
    obtain ⟨⟨x, hx⟩⟩ := x
    obtain ⟨⟨y, hy⟩⟩ := y
    obtain rfl : x = y := UInt64.toNat_inj.1 hbits
    rfl
  · exact Or.inr hzero

end Double

/-! ## Writing -/

theorem roundDiv_zero (den : Nat) : roundDiv 0 den = 0 := by
  simp only [roundDiv, Nat.zero_div, Nat.zero_mod, Nat.mul_zero]
  cases den with
  | zero => rfl
  | succ den =>
      have hlt : compare 0 (den + 1) = .lt := Nat.compare_eq_lt.2 (Nat.succ_pos den)
      rw [hlt]

/-- A zero of either sign. -/
theorem fixedText_zero (negative : Bool) : Dyadic.fixedText ⟨negative, 0, -1074⟩ = ['0'] := by
  have hzero : Dyadic.millionths ⟨negative, 0, -1074⟩ = 0 := by
    rw [Dyadic.millionths, Nat.zero_mul]
    exact roundDiv_zero _
  rw [Dyadic.fixedText, hzero]
  cases negative <;> decide

theorem Double.IsZero.bytes {x : Float} (h : IsZero x) (table : Option ReferenceTable) :
    (Token.real x).bytes table = .ok (Bytes.ofString (String.ofList ['0'])) := by
  have hbits := h.toBits
  have hfinite : x.isFinite = true := by
    obtain ⟨s, hs⟩ := h
    exact congrArg Float.Model.UnpackedFloat.isFinite hs
  have hexponent : x.toBits.toNat / Nat.pow 2 52 % 2048 = 0 := by
    change x.toBits.toNat / 2 ^ 52 % 2048 = 0
    omega
  have hfraction : x.toBits.toNat % Nat.pow 2 52 = 0 := by
    change x.toBits.toNat % 2 ^ 52 = 0
    omega
  have hdyadic : Dyadic.ofFloat x = ⟨x.toBits.toNat / Nat.pow 2 63 == 1, 0, -1074⟩ := by
    simp only [Dyadic.ofFloat, hexponent, hfraction]
    rfl
  rw [Token.bytes, if_pos hfinite, hdyadic, fixedText_zero]

end PdfStore
