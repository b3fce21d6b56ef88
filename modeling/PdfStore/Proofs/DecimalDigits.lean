import Mathlib.Tactic.IntervalCases
import PdfStore.Proofs.IdentityText
import PdfStore.Proofs.Reading

/-!
# Decimal digits

A natural number has one text of decimal digits of a given length, if it has one, with zeros in front (`paddedDigits`), and
one that does not begin with a superfluous zero (`Nat.toDigits`).
-/

namespace PdfStore

/-! ## Padded numbers -/

theorem length_paddedDigits (width n : Nat) :
    (paddedDigits width n).length = max width (Nat.toDigits 10 n).length := by
  rw [paddedDigits, List.length_append, List.length_replicate]
  omega

theorem length_paddedDigits_eq_iff {width n : Nat} (hw : 0 < width) :
    (paddedDigits width n).length = width ↔ n < 10 ^ width := by
  rw [length_paddedDigits, max_eq_left_iff, Nat.length_toDigits_le_iff (by decide) hw]

theorem ofDigitChars_paddedDigits (width n : Nat) : Nat.ofDigitChars 10 (paddedDigits width n) 0 = n := by
  rw [paddedDigits, Nat.ofDigitChars_append, Nat.ofDigitChars_replicate_zero, Nat.mul_zero,
    Nat.ofDigitChars_toDigits (by decide) (by decide)]

theorem paddedDigits_ne_nil (width n : Nat) : paddedDigits width n ≠ [] :=
  List.append_ne_nil_of_right_ne_nil _ Nat.toDigits_ne_nil

namespace Text

variable {ds ds' : List Char} {n : Nat}

theorem digits?_of_isDigit (hne : ds ≠ []) (h : ∀ c ∈ ds, c.isDigit = true) :
    digits? ds = some (Nat.ofDigitChars 10 ds 0) :=
  digits?_eq_some_iff.2 ⟨hne, h, ofDigitChars_eq_value ds⟩

theorem digits?_paddedDigits (width n : Nat) : digits? (paddedDigits width n) = some n := by
  rw [digits?_of_isDigit (paddedDigits_ne_nil width n) Form.isDigit_of_mem_paddedDigits, ofDigitChars_paddedDigits]

theorem digits?_toDigits (n : Nat) : digits? (Nat.toDigits 10 n) = some n := by
  rw [digits?_of_isDigit Nat.toDigits_ne_nil Form.isDigit_of_mem_toDigits,
    Nat.ofDigitChars_toDigits (by decide) (by decide)]

theorem exists_digitChar {c : Char} (h : c.isDigit = true) : ∃ d < 10, c = Nat.digitChar d := by
  simp only [Char.isDigit, Bool.and_eq_true, decide_eq_true_eq] at h
  have hlow : 48 ≤ c.toNat := h.1
  have hhigh : c.toNat ≤ 57 := h.2
  refine ⟨c.toNat - 48, by omega, ?_⟩
  have hc : c = Char.ofNat c.toNat := (Char.ofNat_toNat c).symm
  generalize c.toNat = n at hlow hhigh hc
  subst hc
  interval_cases n <;> rfl

theorem digit_lt (h : ∀ c ∈ ds, c.isDigit = true) : ∀ d ∈ ds.reverse.map (·.toNat - '0'.toNat), d < 10 := by
  intro d hd
  obtain ⟨c, hc, rfl⟩ := List.mem_map.1 hd
  obtain ⟨d, hd, rfl⟩ := exists_digitChar (h c (List.mem_reverse.1 hc))
  interval_cases d <;> decide

theorem map_digitChar (h : ∀ c ∈ ds, c.isDigit = true) :
    (ds.reverse.map (·.toNat - '0'.toNat)).map Nat.digitChar = ds.reverse := by
  rw [List.map_map, List.map_congr_left (g := id), List.map_id]
  intro c hc
  obtain ⟨d, hd, rfl⟩ := exists_digitChar (h c (List.mem_reverse.1 hc))
  interval_cases d <;> rfl

theorem lt_of_digits? (h : digits? ds = some n) : n < 10 ^ ds.length := by
  obtain ⟨-, hdigits, rfl⟩ := digits?_eq_some_iff.1 h
  have hlt := Nat.ofDigits_lt_base_pow_length (b := 10) (by decide) (digit_lt hdigits)
  rwa [List.length_map, List.length_reverse] at hlt

/-- Digits are determined by their value and their number. -/
theorem eq_of_digits? (h : digits? ds = some n) (h' : digits? ds' = some n) (hlen : ds.length = ds'.length) :
    ds = ds' := by
  obtain ⟨-, hdigits, rfl⟩ := digits?_eq_some_iff.1 h
  obtain ⟨-, hdigits', hvalue⟩ := digits?_eq_some_iff.1 h'
  have hmap := Nat.ofDigits_inj_of_len_eq (by decide) (by simpa using hlen) (digit_lt hdigits) (digit_lt hdigits') hvalue
  have hchars := congrArg (List.map Nat.digitChar) hmap
  rw [map_digitChar hdigits, map_digitChar hdigits'] at hchars
  exact List.reverse_injective hchars

theorem paddedDigits_of_digits? (h : digits? ds = some n) : paddedDigits ds.length n = ds := by
  have hpos : 0 < ds.length := List.length_pos_iff.2 (digits?_eq_some_iff.1 h).1
  exact eq_of_digits? (digits?_paddedDigits _ _) h ((length_paddedDigits_eq_iff hpos).2 (lt_of_digits? h))

/-- Digits without a superfluous zero in front are those of their value. -/
theorem toDigits_of_digits? (h : digits? ds = some n) (hzero : ds.head? = some '0' → ds = ['0']) :
    Nat.toDigits 10 n = ds := by
  have hpadded := paddedDigits_of_digits? h
  rw [paddedDigits] at hpadded
  cases hk : ds.length - (Nat.toDigits 10 n).length with
  | zero => rwa [hk] at hpadded
  | succ k =>
      rw [hk, List.replicate_succ, List.cons_append] at hpadded
      have hds := hzero (by rw [← hpadded]; rfl)
      have hpos := Nat.length_toDigits_pos (b := 10) (n := n)
      rw [hds] at hk
      simp only [List.length_singleton] at hk
      omega

theorem toDigits_of_head? (h : (Nat.toDigits 10 n).head? = some '0') : Nat.toDigits 10 n = ['0'] := by
  obtain ⟨rest, hrest⟩ := List.head?_eq_some_iff.1 h
  have hdigits : ∀ c ∈ rest, c.isDigit = true := fun c hc =>
    Form.isDigit_of_mem_toDigits c (hrest ▸ List.mem_cons_of_mem _ hc)
  cases rest with
  | nil => exact hrest
  | cons c rest =>
      -- The digits behind the zero would be a shorter text of the number.
      have hvalue := digits?_of_isDigit (List.cons_ne_nil c rest) hdigits
      have hn : Nat.ofDigitChars 10 (c :: rest) 0 = n := by
        have hn := Nat.ofDigitChars_toDigits (b := 10) (n := n) (by decide) (by decide)
        rw [hrest] at hn
        exact hn
      have hlt : n < 10 ^ (c :: rest).length := hn ▸ lt_of_digits? hvalue
      have hlen := (Nat.length_toDigits_le_iff (b := 10) (by decide) (by simp)).2 hlt
      rw [hrest] at hlen
      simp at hlen

end Text

end PdfStore
