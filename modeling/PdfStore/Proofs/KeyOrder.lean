import Mathlib.Algebra.Group.Nat.Defs
import PdfStore.Bytes

/-!
# The order of names

Names are compared as texts, character by character. Written in UTF-8 they are in the same order byte by byte: the first byte
tells how long a character is, longer ones are larger, and of two of the same length the larger one has the larger byte where
they differ first. No character is the beginning of another one, so what follows them does not matter.
-/

namespace PdfStore.Bytes

variable {a b : Bytes} {m n : Nat}

/-- Whatever follows, the first is smaller. -/
def Precedes (a b : Bytes) : Prop := ∀ x y : Bytes, a ++ x < b ++ y

theorem Precedes.cons (hn : n < 256) (h : m < n ∨ m = n ∧ Precedes a b) :
    Precedes (UInt8.ofNat m :: a) (UInt8.ofNat n :: b) := by
  intro x y
  rw [List.cons_append, List.cons_append, List.cons_lt_cons_iff]
  rcases h with hlt | ⟨rfl, h⟩
  · refine Or.inl (UInt8.lt_iff_toNat_lt.2 ?_)
    rwa [UInt8.toNat_ofNat_of_lt' (Nat.lt_trans hlt hn), UInt8.toNat_ofNat_of_lt' hn]
  · exact Or.inr ⟨rfl, h x y⟩

/-- The last `k` bytes of a long character hold its last `k` digits to base 64. -/
def continuation : Nat → Nat → Bytes
  | 0, _ => []
  | k + 1, n => UInt8.ofNat (n / 64 ^ k % 64 + 0x80) :: continuation k n

theorem precedes_continuation {k : Nat} (hlt : m < n) (heq : m / 64 ^ k = n / 64 ^ k) :
    Precedes (continuation k m) (continuation k n) := by
  induction k with
  | zero => omega
  | succ k ih =>
      rw [Nat.pow_succ, ← Nat.div_div_eq_div_mul, ← Nat.div_div_eq_div_mul] at heq
      refine .cons (by omega) ?_
      have hle : m / 64 ^ k ≤ n / 64 ^ k := Nat.div_le_div_right (Nat.le_of_lt hlt)
      rcases Nat.lt_or_eq_of_le hle with hdigit | hdigit
      · exact Or.inl (by omega)
      · exact Or.inr ⟨by rw [hdigit], ih hdigit⟩

/-- The bytes of a character: one that tells how many follow, with the first digits, and the others. -/
def encoded (n : Nat) : Bytes :=
  if n ≤ 0x7f then [UInt8.ofNat n]
  else if n ≤ 0x7ff then UInt8.ofNat (n / 64 ^ 1 % 0x20 + 0xc0) :: continuation 1 n
  else if n ≤ 0xffff then UInt8.ofNat (n / 64 ^ 2 % 0x10 + 0xe0) :: continuation 2 n
  else UInt8.ofNat (n / 64 ^ 3 % 0x08 + 0xf0) :: continuation 3 n

theorem utf8EncodeChar_eq (c : Char) : String.utf8EncodeChar c = encoded c.val.toNat := by
  simp only [String.utf8EncodeChar, encoded, continuation, Nat.reducePow, Nat.div_one]

theorem precedes_lead {k base count : Nat} (hlt : m < n) (hn : n / 64 ^ k < count) (hbase : base + count ≤ 256) :
    Precedes (UInt8.ofNat (m / 64 ^ k % count + base) :: continuation k m)
      (UInt8.ofNat (n / 64 ^ k % count + base) :: continuation k n) := by
  have hle : m / 64 ^ k ≤ n / 64 ^ k := Nat.div_le_div_right (Nat.le_of_lt hlt)
  rw [Nat.mod_eq_of_lt hn, Nat.mod_eq_of_lt (Nat.lt_of_le_of_lt hle hn)]
  refine .cons (by omega) ?_
  rcases Nat.lt_or_eq_of_le hle with hlead | hlead
  · exact Or.inl (by omega)
  · exact Or.inr ⟨by rw [hlead], precedes_continuation hlt hlead⟩

theorem precedes_encoded (hlt : m < n) (hn : n < 0x110000) : Precedes (encoded m) (encoded n) := by
  unfold encoded
  repeat' split
  -- The first bytes differ if the lengths do; two of one length have the same form.
  all_goals first
    | omega
    | exact .cons (by omega) (Or.inl (by omega))
    | exact precedes_lead hlt (by omega) (by omega)

theorem precedes_utf8EncodeChar {c d : Char} (h : c < d) :
    Precedes (String.utf8EncodeChar c) (String.utf8EncodeChar d) := by
  rw [utf8EncodeChar_eq, utf8EncodeChar_eq]
  refine precedes_encoded h ?_
  rcases d.valid with hd | ⟨-, hd⟩
  · exact Nat.lt_trans hd (by decide)
  · exact hd

theorem flatMap_lt_of_lt {s t : List Char} (h : s < t) :
    s.flatMap String.utf8EncodeChar < t.flatMap String.utf8EncodeChar := by
  induction h with
  | @nil c rest =>
      rw [List.flatMap_nil, List.flatMap_cons]
      cases hc : String.utf8EncodeChar c with
      | nil => exact absurd hc String.utf8EncodeChar_ne_nil
      | cons b bs => exact List.nil_lt_cons _ _
  | rel hcd =>
      rw [List.flatMap_cons, List.flatMap_cons]
      exact precedes_utf8EncodeChar hcd _ _
  | cons _ ih =>
      rw [List.flatMap_cons, List.flatMap_cons]
      exact List.append_left_lt ih

/-- A smaller text has smaller bytes. -/
theorem ofString_lt_of_compare {s t : String} (h : compare s t = .lt) : ofString s < ofString t := by
  have hlt : s < t := compareOfLessAndEq_eq_lt.1 h
  exact flatMap_lt_of_lt hlt

end PdfStore.Bytes
