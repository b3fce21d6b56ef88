import Mathlib.Computability.RegularExpressions
import Mathlib.Data.List.DropRight
import Mathlib.Tactic.FieldSimp
import PdfStore.Proofs.DecimalDigits

/-!
# Texts of decimal fractions

A multiple of a millionth can be written with exactly six places (`DecimalText.sixPlaces`) or with as few as it has
(`millionthsText`). Trimming the first text gives the second (`DecimalText.trimmed`), which is in plain notation
(`DecimalText.plain`) and has the same value.
-/

namespace PdfStore.DecimalText

open RegularExpression

variable {w text : List Char} {cs : List Char} {n k : Nat} {negative : Bool}

/-! ## Patterns -/

/-- One of some characters. -/
def oneOf (cs : List Char) : RegularExpression Char := (cs.map RegularExpression.char).sum

def nonzero : List Char := ['1', '2', '3', '4', '5', '6', '7', '8', '9']

def digits : List Char := '0' :: nonzero

def sign : RegularExpression Char := 1 + char '-'

def whole : RegularExpression Char := char '0' + oneOf nonzero * star (oneOf digits)

/-- The pattern `-?(0|[1-9][0-9]*)(\.[0-9]{0,5}[1-9])?`. -/
def plain : RegularExpression Char := sign * whole * (1 + char '.' * (1 + oneOf digits) ^ 5 * oneOf nonzero)

/-- The pattern `-?(0|[1-9][0-9]*)\.[0-9]{6}`. -/
def sixPlaces : RegularExpression Char := sign * whole * (char '.' * oneOf digits ^ 6)

theorem mem_char_iff {c : Char} : w ∈ (char c).matches' ↔ w = [c] := Iff.rfl

theorem mem_oneOf_iff : w ∈ (oneOf cs).matches' ↔ ∃ c ∈ cs, w = [c] := by
  induction cs with
  | nil => simp [oneOf, Language.notMem_zero]
  | cons c cs ih =>
      rw [oneOf, List.map_cons, List.sum_cons, matches'_add, Language.mem_add, mem_char_iff, ← oneOf, ih]
      simp

theorem flatten_of_oneOf {words : List (List Char)} (h : ∀ w ∈ words, w ∈ (oneOf cs).matches') :
    words.flatten.length = words.length ∧ ∀ c ∈ words.flatten, c ∈ cs := by
  induction words with
  | nil => simp
  | cons w words ih =>
      obtain ⟨c, hc, rfl⟩ := mem_oneOf_iff.1 (h w List.mem_cons_self)
      obtain ⟨hlen, hmem⟩ := ih fun w hw => h w (List.mem_cons_of_mem _ hw)
      rw [List.flatten_cons, List.singleton_append, List.length_cons, List.length_cons, hlen, List.forall_mem_cons]
      exact ⟨rfl, hc, hmem⟩

theorem singletons_mem_oneOf (h : ∀ c ∈ w, c ∈ cs) : ∀ u ∈ w.map ([·]), u ∈ (oneOf cs).matches' := by
  intro u hu
  obtain ⟨c, hc, rfl⟩ := List.mem_map.1 hu
  exact mem_oneOf_iff.2 ⟨c, h c hc, rfl⟩

theorem flatten_singletons (w : List Char) : (w.map ([·])).flatten = w := by
  rw [← List.flatMap_def, List.flatMap_singleton']

theorem mem_star_oneOf_iff : w ∈ (star (oneOf cs)).matches' ↔ ∀ c ∈ w, c ∈ cs := by
  rw [matches'_star, Language.mem_kstar]
  constructor
  · rintro ⟨words, rfl, hwords⟩
    exact (flatten_of_oneOf hwords).2
  · exact fun h => ⟨_, (flatten_singletons w).symm, singletons_mem_oneOf h⟩

theorem mem_pow_oneOf_iff : w ∈ (oneOf cs ^ n).matches' ↔ w.length = n ∧ ∀ c ∈ w, c ∈ cs := by
  rw [matches'_pow, Language.mem_pow]
  constructor
  · rintro ⟨words, rfl, rfl, hwords⟩
    exact flatten_of_oneOf hwords
  · rintro ⟨rfl, h⟩
    exact ⟨_, (flatten_singletons w).symm, List.length_map _, singletons_mem_oneOf h⟩

theorem mem_pow_optional (hlen : w.length ≤ n) (h : ∀ c ∈ w, c ∈ cs) : w ∈ ((1 + oneOf cs) ^ n).matches' := by
  rw [matches'_pow, Language.mem_pow]
  refine ⟨w.map ([·]) ++ List.replicate (n - w.length) [], ?_, ?_, fun u hu => ?_⟩
  · rw [List.flatten_append, flatten_singletons, List.flatten_replicate_nil, List.append_nil]
  · rw [List.length_append, List.length_map, List.length_replicate]
    omega
  · rw [matches'_add, Language.mem_add]
    rcases List.mem_append.1 hu with hu | hu
    · exact Or.inr (singletons_mem_oneOf h u hu)
    · exact Or.inl ((List.mem_replicate.1 hu).2 ▸ Language.nil_mem_one)

theorem mem_digits_iff {c : Char} : c ∈ digits ↔ c.isDigit = true := by
  have hdigits : ∀ c ∈ digits, c.isDigit = true := List.all_eq_true.1 rfl
  refine ⟨hdigits c, fun h => ?_⟩
  obtain ⟨d, hd, rfl⟩ := Text.exists_digitChar h
  interval_cases d <;> decide

theorem mem_nonzero_iff {c : Char} : c ∈ nonzero ↔ c.isDigit = true ∧ c ≠ '0' := by
  rw [← mem_digits_iff, digits, List.mem_cons]
  constructor
  · intro h
    exact ⟨Or.inr h, fun hc => absurd (hc ▸ h) (by decide)⟩
  · rintro ⟨h | h, hne⟩
    · exact absurd h hne
    · exact h

/-! ## The sign -/

def signText (negative : Bool) : List Char := if negative then ['-'] else []

theorem mem_sign_iff : w ∈ sign.matches' ↔ ∃ negative, w = signText negative := by
  rw [sign, matches'_add, Language.mem_add, matches'_epsilon, mem_char_iff, Language.mem_one]
  simp [signText]

/-! ## The digits in front of the point -/

theorem mem_whole_iff : w ∈ whole.matches' ↔ ∃ n, w = Nat.toDigits 10 n := by
  rw [whole, matches'_add, Language.mem_add, mem_char_iff, matches'_mul, Language.mem_mul]
  constructor
  · rintro (rfl | ⟨first, hfirst, rest, hrest, rfl⟩)
    · exact ⟨0, rfl⟩
    · obtain ⟨c, hc, rfl⟩ := mem_oneOf_iff.1 hfirst
      obtain ⟨hc, hne⟩ := mem_nonzero_iff.1 hc
      have hdigits : ∀ d ∈ [c] ++ rest, d.isDigit = true :=
        List.forall_mem_cons.2 ⟨hc, fun d hd => mem_digits_iff.1 (mem_star_oneOf_iff.1 hrest d hd)⟩
      refine ⟨_, (Text.toDigits_of_digits? (Text.digits?_of_isDigit (List.cons_ne_nil c rest) hdigits) fun h => ?_).symm⟩
      exact absurd (Option.some.inj h) hne
  · rintro ⟨n, rfl⟩
    obtain ⟨c, rest, hn⟩ := List.exists_cons_of_ne_nil (Nat.toDigits_ne_nil (b := 10) (n := n))
    have hdigits : ∀ d ∈ c :: rest, d ∈ digits := fun d hd =>
      mem_digits_iff.2 (Form.isDigit_of_mem_toDigits d (hn ▸ hd))
    by_cases hc : c = '0'
    · exact Or.inl (Text.toDigits_of_head? (by rw [hn, hc]; rfl))
    · refine Or.inr ⟨[c], mem_oneOf_iff.2 ⟨c, ?_, rfl⟩, rest, ?_, hn.symm⟩
      · exact mem_nonzero_iff.2 ⟨mem_digits_iff.1 (hdigits c List.mem_cons_self), hc⟩
      · exact mem_star_oneOf_iff.2 fun d hd => hdigits d (List.mem_cons_of_mem _ hd)

/-! ## Six places -/

/-- A number of millionths with all its six places. -/
def sixPlacesText (negative : Bool) (n : Nat) : List Char :=
  signText negative ++ Nat.toDigits 10 (n / 1000000) ++ '.' :: paddedDigits 6 (n % 1000000)

theorem length_places (n : Nat) : (paddedDigits 6 (n % 1000000)).length = 6 :=
  (length_paddedDigits_eq_iff (by decide)).2 (Nat.mod_lt _ (by decide))

theorem mem_sixPlaces_iff : text ∈ sixPlaces.matches' ↔ ∃ negative n, text = sixPlacesText negative n := by
  rw [sixPlaces, matches'_mul, matches'_mul, matches'_mul, Language.mem_mul]
  constructor
  · rintro ⟨_, hfront, _, hpoint, rfl⟩
    obtain ⟨s, hs, w, hw, rfl⟩ := Language.mem_mul.1 hfront
    obtain ⟨_, rfl, places, hplaces, rfl⟩ := Language.mem_mul.1 hpoint
    obtain ⟨negative, rfl⟩ := mem_sign_iff.1 hs
    obtain ⟨n, rfl⟩ := mem_whole_iff.1 hw
    obtain ⟨hlen, hdigits⟩ := mem_pow_oneOf_iff.1 hplaces
    have hne : places ≠ [] := List.ne_nil_of_length_pos (by omega)
    have hread := Text.digits?_of_isDigit hne fun c hc => mem_digits_iff.1 (hdigits c hc)
    have hlt := Text.lt_of_digits? hread
    have hpadded := Text.paddedDigits_of_digits? hread
    generalize Nat.ofDigitChars 10 places 0 = m at hlt hpadded
    rw [hlen] at hlt hpadded
    have hdiv : (n * 1000000 + m) / 1000000 = n := by omega
    have hmod : (n * 1000000 + m) % 1000000 = m := by omega
    refine ⟨negative, n * 1000000 + m, ?_⟩
    rw [sixPlacesText, hdiv, hmod, hpadded]
    rfl
  · rintro ⟨negative, n, rfl⟩
    refine ⟨_, Language.mem_mul.2 ⟨_, mem_sign_iff.2 ⟨negative, rfl⟩, _, mem_whole_iff.2 ⟨_, rfl⟩, rfl⟩, _,
      Language.mem_mul.2 ⟨['.'], rfl, _, mem_pow_oneOf_iff.2 ⟨length_places n, fun c hc => ?_⟩, rfl⟩, rfl⟩
    exact mem_digits_iff.2 (Form.isDigit_of_mem_paddedDigits c hc)

/-! ## Trimming -/

/-- Without the zeros at the end, and without a point that stands there then. A zero has no sign. -/
def trimmed (text : List Char) : List Char :=
  let rest := (text.rdropWhile (· = '0')).rdropWhile (· = '.')
  if rest = ['-', '0'] ∨ rest = [] then ['0'] else rest

/-- The places of a number of millionths, without zeros at the end. -/
def places (n : Nat) : List Char := (paddedDigits 6 (n % 1000000)).rdropWhile (· = '0')

theorem millionthsText_eq (negative : Bool) (n : Nat) : millionthsText negative n =
    signText (negative && n != 0) ++ Nat.toDigits 10 (n / 1000000) ++
      if (places n).isEmpty then [] else '.' :: places n := rfl

theorem rdropWhile_append {α : Type} (p : α → Bool) (l l' : List α) : (l ++ l').rdropWhile p =
    if (l'.rdropWhile p).isEmpty then l.rdropWhile p else l ++ l'.rdropWhile p := by
  rw [List.rdropWhile, List.reverse_append, List.dropWhile_append, apply_ite List.reverse, List.reverse_append,
    List.reverse_reverse, List.rdropWhile, List.isEmpty_reverse]
  rfl

theorem isDigit_of_mem_places {c : Char} (h : c ∈ places n) : c.isDigit = true :=
  Form.isDigit_of_mem_paddedDigits c ((List.rdropWhile_prefix _ _).subset h)

theorem exists_zeros (n : Nat) :
    ∃ k, paddedDigits 6 (n % 1000000) = places n ++ List.replicate k '0' ∧ (places n).length + k = 6 := by
  obtain ⟨zeros, hzeros⟩ : ∃ zeros, zeros = (paddedDigits 6 (n % 1000000)).rtakeWhile (· = '0') := ⟨_, rfl⟩
  have hsplit : paddedDigits 6 (n % 1000000) = places n ++ zeros := by
    rw [hzeros, places, List.rdropWhile_append_rtakeWhile]
  have hreplicate : zeros = List.replicate zeros.length '0' := by
    refine List.eq_replicate_iff.2 ⟨rfl, fun c hc => ?_⟩
    rw [hzeros] at hc
    simpa using List.mem_rtakeWhile_imp hc
  refine ⟨zeros.length, hreplicate ▸ hsplit, ?_⟩
  rw [← List.length_append, ← hsplit, length_places]

theorem places_eq_nil_iff : places n = [] ↔ n % 1000000 = 0 := by
  constructor
  · intro h
    obtain ⟨k, hk, -⟩ := exists_zeros n
    rw [← ofDigitChars_paddedDigits 6 (n % 1000000), hk, h, List.nil_append, Nat.ofDigitChars_replicate_zero, Nat.mul_zero]
  · intro h
    rw [places, h]
    decide

theorem rdropWhile_point {front ds : List Char} (hne : ds ≠ []) (h : ∀ c ∈ ds, c.isDigit = true) :
    (front ++ ds).rdropWhile (· = '.') = front ++ ds := by
  refine List.rdropWhile_eq_self_iff.2 fun hl hpoint => ?_
  rw [List.getLast_append_of_ne_nil _ hne, decide_eq_true_eq] at hpoint
  have hlast := h _ (List.getLast_mem hne)
  rw [hpoint] at hlast
  exact absurd hlast (by decide)

theorem front_ne_zero (h : n ≠ 0) : signText negative ++ Nat.toDigits 10 n ≠ ['-', '0'] := by
  intro hfront
  cases negative with
  | false =>
      have hminus : '-' ∈ Nat.toDigits 10 n := by
        change Nat.toDigits 10 n = ['-', '0'] at hfront
        rw [hfront]
        exact List.mem_cons_self
      exact absurd (Form.isDigit_of_mem_toDigits '-' hminus) (by decide)
  | true =>
      have hdigits : Nat.toDigits 10 n = ['0'] := List.cons_inj_right _ |>.1 hfront
      have hread := Text.digits?_toDigits n
      rw [hdigits] at hread
      exact h (Option.some.inj hread).symm

/-- Trimming the text with six places leaves no superfluous digit, and no sign of a zero. -/
theorem trimmed_sixPlacesText (negative : Bool) (n : Nat) :
    trimmed (sixPlacesText negative n) = millionthsText negative n := by
  have hdigits : ∀ c ∈ Nat.toDigits 10 (n / 1000000), c.isDigit = true := Form.isDigit_of_mem_toDigits
  have hzeros : (paddedDigits 6 (n % 1000000)).rdropWhile (· = '0') = places n := rfl
  rw [trimmed, sixPlacesText, List.append_cons, rdropWhile_append, hzeros, millionthsText_eq]
  by_cases hplaces : n % 1000000 = 0
  · rw [places_eq_nil_iff.2 hplaces, List.isEmpty_nil, if_pos rfl, if_pos rfl,
      List.rdropWhile_concat_neg _ _ _ (by decide), List.rdropWhile_concat_pos _ _ _ (by decide),
      rdropWhile_point Nat.toDigits_ne_nil hdigits]
    by_cases hn : n = 0
    · subst hn
      cases negative <;> decide
    · have hwhole : n / 1000000 ≠ 0 := by omega
      have hnil : signText negative ++ Nat.toDigits 10 (n / 1000000) ≠ [] :=
        List.append_ne_nil_of_right_ne_nil _ Nat.toDigits_ne_nil
      have hsign : (negative && n != 0) = negative := by simp [hn]
      rw [if_neg (not_or.2 ⟨front_ne_zero hwhole, hnil⟩), hsign, List.append_nil]
  · have hne : places n ≠ [] := fun h => hplaces (places_eq_nil_iff.1 h)
    have hsign : (negative && n != 0) = negative := by
      have hn : n ≠ 0 := fun h => hplaces (by rw [h])
      simp [hn]
    rw [List.isEmpty_eq_false_iff.2 hne, if_neg Bool.false_ne_true, if_neg Bool.false_ne_true,
      rdropWhile_point hne fun c => isDigit_of_mem_places, hsign, ← List.append_cons, if_neg]
    rintro (h | h)
    · have hpoint : '.' ∈ ['-', '0'] := h ▸ List.mem_append_right _ List.mem_cons_self
      exact absurd hpoint (by decide)
    · exact absurd h (List.append_ne_nil_of_right_ne_nil _ (List.cons_ne_nil _ _))

/-! ## Plain notation -/

theorem places_mem (h : places n ≠ []) :
    '.' :: places n ∈ (char '.' * (1 + oneOf digits) ^ 5 * oneOf nonzero).matches' := by
  obtain ⟨k, -, hlen⟩ := exists_zeros n
  have hlast : (places n).getLast h ≠ '0' := fun hzero =>
    List.rdropWhile_last_not (· = '0') (paddedDigits 6 (n % 1000000)) h (decide_eq_true hzero)
  have hdigit := isDigit_of_mem_places (List.getLast_mem h)
  rw [← List.dropLast_append_getLast h, matches'_mul, matches'_mul]
  refine Language.mem_mul.2 ⟨'.' :: (places n).dropLast, Language.mem_mul.2 ⟨['.'], rfl, _, ?_, rfl⟩, _, ?_, rfl⟩
  · refine mem_pow_optional ?_ fun c hc => mem_digits_iff.2 (isDigit_of_mem_places (List.mem_of_mem_dropLast hc))
    rw [List.length_dropLast]
    omega
  · exact mem_oneOf_iff.2 ⟨_, mem_nonzero_iff.2 ⟨hdigit, hlast⟩, rfl⟩

theorem millionthsText_mem_plain (negative : Bool) (n : Nat) : millionthsText negative n ∈ plain.matches' := by
  rw [millionthsText_eq, plain, matches'_mul, matches'_mul]
  refine Language.mem_mul.2 ⟨_, Language.mem_mul.2 ⟨_, mem_sign_iff.2 ⟨_, rfl⟩, _, mem_whole_iff.2 ⟨_, rfl⟩, rfl⟩, _, ?_, rfl⟩
  rw [matches'_add, Language.mem_add]
  by_cases h : places n = []
  · rw [h]
    exact Or.inl Language.nil_mem_one
  · rw [List.isEmpty_eq_false_iff.2 h]
    exact Or.inr (places_mem h)

/-! ## Values -/

/-- The value of decimal digits, with places behind a point if there is one. -/
def magnitude? (text : List Char) : Option ℚ :=
  match text.dropWhile Char.isDigit with
  | [] => (Text.digits? text).map Nat.cast
  | '.' :: places => do
    let n ← Text.digits? (text.takeWhile Char.isDigit)
    let m ← Text.digits? places
    return n + m / 10 ^ places.length
  | _ => none

/-- The value of a decimal fraction with or without a sign. -/
def value? : List Char → Option ℚ
  | '-' :: text => (magnitude? text).map (- ·)
  | text => magnitude? text

def signed {α : Type} [Neg α] (negative : Bool) (a : α) : α := if negative then -a else a

theorem magnitude?_toDigits (n : Nat) : magnitude? (Nat.toDigits 10 n) = some (n : ℚ) := by
  have hrest := List.dropWhile_eq_nil_iff.2 (Form.isDigit_of_mem_toDigits (n := n))
  rw [magnitude?, hrest, Text.digits?_toDigits]
  rfl

theorem magnitude?_point (n : Nat) {places : List Char} {m : Nat} (h : Text.digits? places = some m) :
    magnitude? (Nat.toDigits 10 n ++ '.' :: places) = some ((n : ℚ) + m / 10 ^ places.length) := by
  rw [magnitude?, List.dropWhile_append_of_pos Form.isDigit_of_mem_toDigits,
    List.takeWhile_append_of_pos Form.isDigit_of_mem_toDigits, List.dropWhile_cons_of_neg (by decide),
    List.takeWhile_cons_of_neg (by decide), List.append_nil, Text.digits?_toDigits]
  simp only [h]
  rfl

theorem value?_signText (negative : Bool) (n : Nat) (rest : List Char) :
    value? (signText negative ++ Nat.toDigits 10 n ++ rest) =
      (magnitude? (Nat.toDigits 10 n ++ rest)).map (signed negative) := by
  cases negative with
  | true => rfl
  | false =>
      obtain ⟨c, ds, hn⟩ := List.exists_cons_of_ne_nil (Nat.toDigits_ne_nil (b := 10) (n := n))
      have hc : c ≠ '-' := by
        rintro rfl
        exact absurd (Form.isDigit_of_mem_toDigits '-' (hn ▸ List.mem_cons_self)) (by decide)
      have hunsigned : value? (c :: (ds ++ rest)) = magnitude? (c :: (ds ++ rest)) := by
        rw [value?]
        exact fun _ h => hc (List.cons.inj h).1
      rw [hn, List.append_assoc, List.cons_append]
      refine hunsigned.trans ?_
      cases magnitude? (c :: (ds ++ rest)) <;> rfl

theorem div_add_mod_millionths (n : Nat) :
    ((n / 1000000 : Nat) : ℚ) + ((n % 1000000 : Nat) : ℚ) / 10 ^ 6 = n / 10 ^ 6 := by
  have h : ((1000000 * (n / 1000000) + n % 1000000 : Nat) : ℚ) = n := congrArg Nat.cast (Nat.div_add_mod n 1000000)
  rw [← h]
  push_cast
  field_simp
  norm_num

/-- Zeros at the end of places do not count. -/
theorem value_places (n : Nat) :
    (Nat.ofDigitChars 10 (places n) 0 : ℚ) / 10 ^ (places n).length = ((n % 1000000 : Nat) : ℚ) / 10 ^ 6 := by
  obtain ⟨k, hk, hlen⟩ := exists_zeros n
  have hvalue : n % 1000000 = 10 ^ k * Nat.ofDigitChars 10 (places n) 0 := by
    rw [← ofDigitChars_paddedDigits 6 (n % 1000000), hk, Nat.ofDigitChars_append, Nat.ofDigitChars_replicate_zero]
  rw [hvalue, ← hlen, pow_add]
  push_cast
  field_simp

theorem value?_sixPlacesText (negative : Bool) (n : Nat) :
    value? (sixPlacesText negative n) = some (signed negative ((n : ℚ) / 10 ^ 6)) := by
  rw [sixPlacesText, value?_signText, magnitude?_point _ (Text.digits?_paddedDigits 6 _), length_places,
    div_add_mod_millionths]
  rfl

theorem signed_of_zero {n : Nat} (negative : Bool) :
    signed (negative && n != 0) ((n : ℚ) / 10 ^ 6) = signed negative ((n : ℚ) / 10 ^ 6) := by
  by_cases hn : n = 0
  · subst hn
    cases negative <;> simp [signed]
  · have hsign : (negative && n != 0) = negative := by simp [hn]
    rw [hsign]

theorem value?_millionthsText (negative : Bool) (n : Nat) :
    value? (millionthsText negative n) = some (signed negative ((n : ℚ) / 10 ^ 6)) := by
  rw [millionthsText_eq, value?_signText, ← signed_of_zero, ← div_add_mod_millionths]
  by_cases h : places n = []
  · rw [h, List.isEmpty_nil, if_pos rfl, List.append_nil, magnitude?_toDigits, places_eq_nil_iff.1 h]
    simp
  · have hread := Text.digits?_of_isDigit h fun c => isDigit_of_mem_places
    rw [List.isEmpty_eq_false_iff.2 h, if_neg Bool.false_ne_true, magnitude?_point _ hread, value_places]
    rfl

/-! ## Signed numbers of millionths -/

theorem signed_div (negative : Bool) (n : Nat) :
    signed negative ((n : ℚ) / 10 ^ 6) = ((signed negative (n : ℤ) : ℤ) : ℚ) / 10 ^ 6 := by
  cases negative with
  | false => rfl
  | true =>
      simp only [signed, if_true]
      push_cast
      ring

theorem signed_div_injective {i j : ℤ} (h : (i : ℚ) / 10 ^ 6 = (j : ℚ) / 10 ^ 6) : i = j := by
  rw [div_left_inj' (by norm_num)] at h
  exact_mod_cast h

/-- The text has the sign of a number of millionths only if that is not zero. -/
theorem millionthsText_congr {negative' : Bool} {n' : Nat} (h : signed negative (n : ℤ) = signed negative' (n' : ℤ)) :
    millionthsText negative n = millionthsText negative' n' := by
  have hn : n = n' := by
    simp only [signed] at h
    split at h <;> split at h <;> omega
  subst hn
  have hsign : (negative && n != 0) = (negative' && n != 0) := by
    by_cases hn : n = 0
    · simp [hn]
    · have hnegative : negative = negative' := by
        cases negative <;> cases negative' <;> simp only [signed, if_true] at h ⊢ <;> simp at h <;> omega
      rw [hnegative]
  rw [millionthsText_eq, millionthsText_eq, hsign]

theorem trimmed_eq_millionthsText (h : text ∈ sixPlaces.matches')
    (hvalue : value? text = some (((signed negative (n : ℤ) : ℤ) : ℚ) / 10 ^ 6)) :
    trimmed text = millionthsText negative n := by
  obtain ⟨negative', n', rfl⟩ := mem_sixPlaces_iff.1 h
  rw [value?_sixPlacesText, signed_div, Option.some.injEq] at hvalue
  rw [trimmed_sixPlacesText]
  exact millionthsText_congr (signed_div_injective hvalue)

theorem trimmed_ne (text : List Char) : trimmed text ≠ [] ∧ trimmed text ≠ ['-', '0'] := by
  rw [trimmed]
  split
  · decide
  · rename_i h
    exact ⟨fun hnil => h (Or.inr hnil), fun hzero => h (Or.inl hzero)⟩

end PdfStore.DecimalText
