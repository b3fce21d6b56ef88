import Mathlib.Data.List.Induction
import Mathlib.Data.Nat.Digits.Defs
import PdfStore.Identity

/-!
# The text of identities

A text splits into words if white space stands around them and between any two of them (`Text.Split`); there is one way to do
it, and `Text.words` finds it. Identities are read from two words that are numerals within their limits
(`Text.IsNumeral`), with or without an `R` as the third, and the fault that is reported is the first in the order: the words,
the number, the generation.
-/

namespace PdfStore

namespace Text

variable {s rest w : List Char} {ws : List (List Char)}

/-! ## Words -/

def IsGap (gap : List Char) : Prop := ∀ c ∈ gap, isBlank c = true

def IsWord (w : List Char) : Prop := w ≠ [] ∧ ∀ c ∈ w, isBlank c = false

/-- A text and its words: before each of them and at the end may be white space, and behind a word there is white space
or the end. -/
inductive Split : List Char → List (List Char) → Prop
  | none {gap : List Char} (hgap : IsGap gap) : Split gap []
  | word {gap w rest : List Char} {ws : List (List Char)} (hgap : IsGap gap) (hw : IsWord w)
      (hrest : ∀ c ∈ rest.head?, isBlank c = true) (h : Split rest ws) : Split (gap ++ (w ++ rest)) (w :: ws)

theorem isBlank_of_mem_head? {gap : List Char} (hgap : IsGap gap) (hne : gap ≠ []) (s : List Char) :
    ∀ c ∈ (gap ++ s).head?, isBlank c = true := by
  cases gap with
  | nil => exact absurd rfl hne
  | cons d gap =>
      intro c hc
      cases hc
      exact hgap d List.mem_cons_self

theorem words_blank {c : Char} (hc : isBlank c = true) (s : List Char) : words (c :: s) = words s := by
  rw [words.eq_def]
  exact if_pos hc

theorem words_gap {gap : List Char} (hgap : IsGap gap) (s : List Char) : words (gap ++ s) = words s := by
  induction gap with
  | nil => rfl
  | cons c gap ih =>
      obtain ⟨hc, hgap⟩ := List.forall_mem_cons.1 hgap
      rw [List.cons_append, words_blank hc, ih hgap]

/-- A word ends where white space begins, or with the text. -/
theorem words_word (hw : IsWord w) (hrest : ∀ c ∈ rest.head?, isBlank c = true) :
    words (w ++ rest) = w :: words rest := by
  obtain ⟨hne, hw⟩ := hw
  induction w with
  | nil => exact absurd rfl hne
  | cons c w ih =>
      obtain ⟨hc, hw⟩ := List.forall_mem_cons.1 hw
      cases w with
      | nil =>
          rw [words.eq_def]
          refine (if_neg (by simp [hc])).trans ?_
          cases rest with
          | nil => rfl
          | cons d rest => exact if_pos (hrest d rfl)
      | cons d w =>
          have hd : isBlank d = false := hw d List.mem_cons_self
          have ih := ih (List.cons_ne_nil d w) hw
          rw [List.cons_append, List.cons_append, words.eq_def]
          refine (if_neg (by simp [hc])).trans ((if_neg (by simp [hd])).trans ?_)
          rw [← List.cons_append, ih]

theorem words_of_split (h : Split s ws) : words s = ws := by
  induction h with
  | none hgap =>
      have h := words_gap hgap []
      rwa [List.append_nil] at h
  | word hgap hw hrest _ ih => rw [words_gap hgap, words_word hw hrest, ih]

theorem Split.blank {c : Char} (hc : isBlank c = true) (h : Split s ws) : Split (c :: s) ws := by
  cases h with
  | none hgap => exact .none (List.forall_mem_cons.2 ⟨hc, hgap⟩)
  | @word gap w rest ws hgap hw hrest h =>
      exact @Split.word (c :: gap) w rest ws (List.forall_mem_cons.2 ⟨hc, hgap⟩) hw hrest h

/-- A character in front of a text begins a word, or belongs to the first one. -/
theorem Split.letter {c : Char} (hc : isBlank c = false) (h : Split s ws) : ∃ ws', Split (c :: s) ws' := by
  have hgap : IsGap [] := List.forall_mem_nil _
  have hword : IsWord [c] := ⟨List.cons_ne_nil c [], List.forall_mem_singleton.2 hc⟩
  cases h with
  | none hblank => exact ⟨_, .word hgap hword (fun d hd => hblank d (List.mem_of_mem_head? hd)) (.none hblank)⟩
  | @word gap w rest ws hblank hw hrest h =>
      cases gap with
      | nil => exact ⟨_, .word hgap ⟨List.cons_ne_nil c w, List.forall_mem_cons.2 ⟨hc, hw.2⟩⟩ hrest h⟩
      | cons d gap =>
          have hd := isBlank_of_mem_head? hblank (List.cons_ne_nil d gap) (w ++ rest)
          exact ⟨_, .word hgap hword hd (.word hblank hw hrest h)⟩

theorem exists_split (s : List Char) : ∃ ws, Split s ws := by
  induction s with
  | nil => exact ⟨[], .none (List.forall_mem_nil _)⟩
  | cons c s ih =>
      obtain ⟨ws, h⟩ := ih
      cases hc : isBlank c with
      | true => exact ⟨ws, h.blank hc⟩
      | false => exact h.letter hc

theorem split_iff : Split s ws ↔ words s = ws := by
  refine ⟨words_of_split, ?_⟩
  rintro rfl
  obtain ⟨ws, h⟩ := exists_split s
  exact (words_of_split h).symm ▸ h

/-! ## Numerals -/

/-- The value of decimal digits, of which the last one counts once. -/
def value (ds : List Char) : Nat := Nat.ofDigits 10 (ds.reverse.map fun c => c.toNat - '0'.toNat)

/-- Decimal digits, at least one, with or without a plus sign in front. -/
def IsNumeral (w : List Char) (n : Nat) : Prop :=
  ∃ ds, (w = ds ∨ w = '+' :: ds) ∧ ds ≠ [] ∧ (∀ c ∈ ds, c.isDigit = true) ∧ n = value ds

theorem value_append_singleton (ds : List Char) (c : Char) :
    value (ds ++ [c]) = 10 * value ds + (c.toNat - '0'.toNat) := by
  simp only [value, List.reverse_append, List.reverse_singleton, List.singleton_append, List.map_cons, Nat.ofDigits_cons]
  exact Nat.add_comm ..

theorem ofDigitChars_eq_value (ds : List Char) : Nat.ofDigitChars 10 ds 0 = value ds := by
  induction ds using List.reverseRecOn with
  | nil => rfl
  | append_singleton ds c ih =>
      rw [Nat.ofDigitChars_append, ih, value_append_singleton]
      rfl

theorem digits?_eq_some_iff {n : Nat} :
    digits? w = some n ↔ w ≠ [] ∧ (∀ c ∈ w, c.isDigit = true) ∧ n = value w := by
  simp only [digits?, Bool.or_eq_true, List.isEmpty_iff, Bool.not_eq_true', List.all_eq_false, ofDigitChars_eq_value]
  split
  · rename_i h
    refine ⟨fun h => (nomatch h), fun ⟨hne, hw, _⟩ => ?_⟩
    rcases h with h | ⟨c, hc, hdigit⟩
    · exact absurd h hne
    · exact absurd (hw c hc) hdigit
  · rename_i h
    simp only [not_or, not_exists, not_and, Decidable.not_not] at h
    rw [Option.some.injEq]
    exact ⟨fun hn => ⟨h.1, h.2, hn.symm⟩, fun hn => hn.2.2.symm⟩

theorem isNumeral_iff_of_ne {n : Nat} (hw : w.head? ≠ some '+') : IsNumeral w n ↔ digits? w = some n := by
  rw [digits?_eq_some_iff]
  constructor
  · rintro ⟨ds, rfl | rfl, hds⟩
    · exact hds
    · exact absurd rfl hw
  · exact fun h => ⟨w, Or.inl rfl, h⟩

theorem isNumeral_plus_iff {ds : List Char} {n : Nat} : IsNumeral ('+' :: ds) n ↔ digits? ds = some n := by
  rw [digits?_eq_some_iff]
  constructor
  · rintro ⟨ds', rfl | h, hds⟩
    · exact absurd (hds.2.1 '+' List.mem_cons_self) (by decide)
    · exact (List.cons.inj h).2 ▸ hds
  · exact fun h => ⟨ds, Or.inr rfl, h⟩

theorem decimal?_eq_some_iff {limit n : Nat} : decimal? limit w = some n ↔ IsNumeral w n ∧ n ≤ limit := by
  unfold decimal?
  split
  · rw [Option.filter_eq_some_iff, isNumeral_plus_iff, decide_eq_true_eq]
  · rename_i hw
    have hne : w.head? ≠ some '+' := fun h => by
      obtain ⟨rest, rfl⟩ := List.head?_eq_some_iff.1 h
      exact hw rest rfl
    rw [Option.filter_eq_some_iff, isNumeral_iff_of_ne hne, decide_eq_true_eq]

theorem decimal?_eq_none_iff {limit : Nat} : decimal? limit w = none ↔ ¬∃ n ≤ limit, IsNumeral w n := by
  rw [Option.eq_none_iff_forall_ne_some]
  exact ⟨fun h ⟨n, hn, hw⟩ => h n (decimal?_eq_some_iff.2 ⟨hw, hn⟩),
    fun h n hn => h ⟨n, (decimal?_eq_some_iff.1 hn).2, (decimal?_eq_some_iff.1 hn).1⟩⟩

/-! ## Numbers as they are written -/

theorem toList_toString (n : Nat) : (toString n).toList = Nat.toDigits 10 n := Nat.toList_repr

theorem isDigit_of_mem_toList {n : Nat} : ∀ c ∈ (toString n).toList, c.isDigit = true := by
  intro c hc
  rw [toList_toString] at hc
  exact Nat.isDigit_of_mem_toDigits (by decide) (by decide) hc

theorem toList_ne_nil (n : Nat) : (toString n).toList ≠ [] := by
  rw [toList_toString]
  exact Nat.toDigits_ne_nil

theorem isNumeral_toString (n : Nat) : IsNumeral (toString n).toList n := by
  refine ⟨_, Or.inl rfl, toList_ne_nil n, isDigit_of_mem_toList, ?_⟩
  rw [← ofDigitChars_eq_value, toList_toString, Nat.ofDigitChars_toDigits (by decide) (by decide)]

theorem isBlank_of_isDigit {c : Char} (hc : c.isDigit = true) : isBlank c = false := by
  cases h : isBlank c with
  | false => rfl
  | true =>
      simp only [isBlank, Bool.or_eq_true, decide_eq_true_eq] at h
      rcases h with (((rfl | rfl) | rfl) | rfl) | rfl <;> exact absurd hc (by decide)

theorem isWord_toString (n : Nat) : IsWord (toString n).toList :=
  ⟨toList_ne_nil n, fun c hc => isBlank_of_isDigit (isDigit_of_mem_toList c hc)⟩

end Text

namespace ObjectId

open Text

/-- A text of two words, or of three with `R` as the last. -/
def Shaped (text : String) (number generation : List Char) : Prop :=
  Split text.toList [number, generation] ∨ Split text.toList [number, generation, ['R']]

variable {text : String} {number generation : List Char}

theorem parse_of_shaped (h : Shaped text number generation) : parse text = parse.read number generation := by
  rcases h with h | h
  · rw [parse, split_iff.1 h]
  · rw [parse, split_iff.1 h]
    rfl

theorem parse_of_not_shaped (h : ¬∃ number generation, Shaped text number generation) :
    parse text = .error (.malformed text) := by
  rw [parse]
  split
  · rename_i hw
    exact absurd ⟨_, _, Or.inl (split_iff.2 hw)⟩ h
  · rename_i hw
    exact absurd ⟨_, _, Or.inr (split_iff.2 hw)⟩ h
  · rfl

theorem Shaped.unique {number' generation' : List Char} (h : Shaped text number generation)
    (h' : Shaped text number' generation') : number = number' ∧ generation = generation' := by
  have heq {ws ws' : List (List Char)} (h : Split text.toList ws) (h' : Split text.toList ws') : ws = ws' :=
    (split_iff.1 h).symm.trans (split_iff.1 h')
  rcases h with h | h <;> rcases h' with h' | h' <;> simpa using heq h h'

theorem read_ok_iff {id : ObjectId} : parse.read number generation = .ok id ↔
    ∃ n g, IsNumeral number n ∧ n ≤ 4294967295 ∧ IsNumeral generation g ∧ g ≤ 65535 ∧
      id.number.toNat = n ∧ id.generation.toNat = g := by
  unfold parse.read
  split
  · rename_i hnumber
    refine ⟨fun h => (nomatch h), fun ⟨n, g, hn, hlimit, _⟩ => ?_⟩
    exact absurd ⟨n, hlimit, hn⟩ (decimal?_eq_none_iff.1 hnumber)
  · rename_i n hnumber
    split
    · rename_i hgeneration
      refine ⟨fun h => (nomatch h), fun ⟨n, g, _, _, hg, hlimit, _⟩ => ?_⟩
      exact absurd ⟨g, hlimit, hg⟩ (decimal?_eq_none_iff.1 hgeneration)
    · rename_i g hgeneration
      obtain ⟨hn, hnlimit⟩ := decimal?_eq_some_iff.1 hnumber
      obtain ⟨hg, hglimit⟩ := decimal?_eq_some_iff.1 hgeneration
      constructor
      · intro h
        cases h
        exact ⟨n, g, hn, hnlimit, hg, hglimit, UInt32.toNat_ofNat_of_lt (Nat.lt_succ_of_le hnlimit),
          UInt16.toNat_ofNat_of_lt (Nat.lt_succ_of_le hglimit)⟩
      · rintro ⟨n', g', hn', hnlimit', hg', hglimit', rfl, rfl⟩
        have hn : n = id.number.toNat :=
          Option.some.inj (hnumber.symm.trans (decimal?_eq_some_iff.2 ⟨hn', hnlimit'⟩))
        have hg : g = id.generation.toNat :=
          Option.some.inj (hgeneration.symm.trans (decimal?_eq_some_iff.2 ⟨hg', hglimit'⟩))
        rw [hn, hg, UInt32.ofNat_toNat, UInt16.ofNat_toNat]

theorem read_error_iff {e : IdentityError} : parse.read number generation = .error e ↔
    e = .badNumber (String.ofList number) ∧ (¬∃ n ≤ 4294967295, IsNumeral number n) ∨
      e = .badGeneration (String.ofList generation) ∧ (∃ n ≤ 4294967295, IsNumeral number n) ∧
        ¬∃ g ≤ 65535, IsNumeral generation g := by
  unfold parse.read
  split
  · rename_i hnumber
    have hnumber := decimal?_eq_none_iff.1 hnumber
    rw [Except.error.injEq, eq_comm]
    exact ⟨fun he => Or.inl ⟨he, hnumber⟩, fun h => (h.resolve_right fun h => hnumber h.2.1).1⟩
  · rename_i n hnumber
    obtain ⟨hn, hlimit⟩ := decimal?_eq_some_iff.1 hnumber
    have hnumber : ∃ n ≤ 4294967295, IsNumeral number n := ⟨n, hlimit, hn⟩
    split
    · rename_i hgeneration
      have hgeneration := decimal?_eq_none_iff.1 hgeneration
      rw [Except.error.injEq, eq_comm]
      exact ⟨fun he => Or.inr ⟨he, hnumber, hgeneration⟩, fun h => (h.resolve_left fun h => h.2 hnumber).1⟩
    · rename_i g hgeneration
      obtain ⟨hg, hlimit⟩ := decimal?_eq_some_iff.1 hgeneration
      refine ⟨fun h => (nomatch h), ?_⟩
      rintro (⟨-, h⟩ | ⟨-, -, h⟩)
      · exact absurd hnumber h
      · exact absurd ⟨g, hlimit, hg⟩ h

theorem parse_ok_iff {id : ObjectId} : parse text = .ok id ↔
    ∃ number generation, Shaped text number generation ∧
      ∃ n g, IsNumeral number n ∧ n ≤ 4294967295 ∧ IsNumeral generation g ∧ g ≤ 65535 ∧
        id.number.toNat = n ∧ id.generation.toNat = g := by
  by_cases hshape : ∃ number generation, Shaped text number generation
  · obtain ⟨number, generation, hshape⟩ := hshape
    rw [parse_of_shaped hshape, read_ok_iff]
    refine ⟨fun h => ⟨number, generation, hshape, h⟩, fun ⟨number', generation', hshape', h⟩ => ?_⟩
    obtain ⟨rfl, rfl⟩ := hshape.unique hshape'
    exact h
  · rw [parse_of_not_shaped hshape]
    exact ⟨fun h => (nomatch h), fun ⟨number, generation, h, _⟩ => absurd ⟨number, generation, h⟩ hshape⟩

theorem parse_error_iff {e : IdentityError} : parse text = .error e ↔
    e = .malformed text ∧ (¬∃ number generation, Shaped text number generation) ∨
      ∃ number generation, Shaped text number generation ∧
        (e = .badNumber (String.ofList number) ∧ (¬∃ n ≤ 4294967295, IsNumeral number n) ∨
          e = .badGeneration (String.ofList generation) ∧ (∃ n ≤ 4294967295, IsNumeral number n) ∧
            ¬∃ g ≤ 65535, IsNumeral generation g) := by
  by_cases hshape : ∃ number generation, Shaped text number generation
  · have hnot := not_not_intro hshape
    obtain ⟨number, generation, hshape⟩ := hshape
    rw [parse_of_shaped hshape, read_error_iff]
    refine ⟨fun h => Or.inr ⟨number, generation, hshape, h⟩, fun h => ?_⟩
    obtain ⟨number', generation', hshape', h⟩ := h.resolve_left fun h => hnot h.2
    obtain ⟨rfl, rfl⟩ := hshape.unique hshape'
    exact h
  · rw [parse_of_not_shaped hshape, Except.error.injEq, eq_comm]
    refine ⟨fun he => Or.inl ⟨he, hshape⟩, fun h => ?_⟩
    exact (h.resolve_right fun ⟨number, generation, h, _⟩ => hshape ⟨number, generation, h⟩).1

/-! ## Identities as they are written -/

theorem toList_token (id : ObjectId) :
    id.token.toList = (toString id.number.toNat).toList ++ ' ' :: ((toString id.generation.toNat).toList ++ [' ', 'R']) := by
  simp only [token, String.toList_append, List.append_assoc]
  rfl

section Gaps

variable {before first second after : List Char} (hbefore : IsGap before) (hfirst : IsGap first) (hsecond : IsGap second)
  (hafter : IsGap after) (hfirstne : first ≠ []) (hsecondne : second ≠ []) (hnumber : IsWord number)
  (hgeneration : IsWord generation)
include hbefore hfirst hafter hfirstne hnumber hgeneration

theorem shaped_two : Shaped (String.ofList (before ++ number ++ first ++ generation ++ after)) number generation := by
  have hlast : ∀ c ∈ after.head?, isBlank c = true := fun c hc => hafter c (List.mem_of_mem_head? hc)
  refine Or.inl ?_
  rw [String.toList_ofList, List.append_assoc, List.append_assoc, List.append_assoc]
  exact .word hbefore hnumber (isBlank_of_mem_head? hfirst hfirstne _) (.word hfirst hgeneration hlast (.none hafter))

include hsecond hsecondne

theorem shaped_three :
    Shaped (String.ofList (before ++ number ++ first ++ generation ++ second ++ 'R' :: after)) number generation := by
  have hlast : ∀ c ∈ after.head?, isBlank c = true := fun c hc => hafter c (List.mem_of_mem_head? hc)
  have hmark : IsWord ['R'] := ⟨List.cons_ne_nil _ _, List.forall_mem_singleton.2 rfl⟩
  refine Or.inr ?_
  rw [String.toList_ofList, List.append_assoc, List.append_assoc, List.append_assoc, List.append_assoc]
  exact .word hbefore hnumber (isBlank_of_mem_head? hfirst hfirstne _)
    (.word hfirst hgeneration (isBlank_of_mem_head? hsecond hsecondne _) (.word hsecond hmark hlast (.none hafter)))

end Gaps

theorem read_toString (id : ObjectId) :
    parse.read (toString id.number.toNat).toList (toString id.generation.toNat).toList = .ok id := by
  have hnumber := id.number.toNat_lt
  have hgeneration := id.generation.toNat_lt
  exact read_ok_iff.2 ⟨_, _, isNumeral_toString _, by omega, isNumeral_toString _, by omega, rfl, rfl⟩

/-- A text is read as an identity exactly if it has two words, or three with `R` as the last, and these are decimal
numerals within the limits; what is read are their values. Else the fault is in the words, then in the number, then in
the generation. The text of an identity is read back as it, with or without the `R`, whatever white space stands
around it and between its words. -/
theorem reads_two_numerals :
    (∀ (text : String) (id : ObjectId), parse text = .ok id ↔
      ∃ number generation, Shaped text number generation ∧
        ∃ n g, IsNumeral number n ∧ n ≤ 4294967295 ∧ IsNumeral generation g ∧ g ≤ 65535 ∧
          id.number.toNat = n ∧ id.generation.toNat = g) ∧
    (∀ (text : String) (e : IdentityError), parse text = .error e ↔
      e = .malformed text ∧ (¬∃ number generation, Shaped text number generation) ∨
        ∃ number generation, Shaped text number generation ∧
          (e = .badNumber (String.ofList number) ∧ (¬∃ n ≤ 4294967295, IsNumeral number n) ∨
            e = .badGeneration (String.ofList generation) ∧ (∃ n ≤ 4294967295, IsNumeral number n) ∧
              ¬∃ g ≤ 65535, IsNumeral generation g)) ∧
    ∀ id : ObjectId, let number := (toString id.number.toNat).toList
      let generation := (toString id.generation.toNat).toList
      id.token.toList = number ++ ' ' :: (generation ++ [' ', 'R']) ∧
        ∀ {before first second after : List Char}, IsGap before → IsGap first → IsGap second → IsGap after →
          first ≠ [] → second ≠ [] →
            parse (String.ofList (before ++ number ++ first ++ generation ++ after)) = .ok id ∧
            parse (String.ofList (before ++ number ++ first ++ generation ++ second ++ 'R' :: after)) = .ok id := by
  refine ⟨fun text id => parse_ok_iff, fun text e => parse_error_iff, fun id => ?_⟩
  intro number generation
  refine ⟨toList_token id, fun {before first second after} hbefore hfirst hsecond hafter hfirstne hsecondne => ?_⟩
  have hnumber : IsWord number := isWord_toString _
  have hgeneration : IsWord generation := isWord_toString _
  have htwo := shaped_two hbefore hfirst hafter hfirstne hnumber hgeneration
  have hthree := shaped_three hbefore hfirst hsecond hafter hfirstne hsecondne hnumber hgeneration
  exact ⟨(parse_of_shaped htwo).trans (read_toString id), (parse_of_shaped hthree).trans (read_toString id)⟩

/-- A tab in front, two blanks in the middle, a form feed before the mark and a line end. -/
theorem reads_two_numerals_of_gaps :
    IsGap ['\t'] ∧ IsGap [' ', ' '] ∧ IsGap ['\x0c'] ∧ IsGap ['\r', '\n'] ∧ [' ', ' '] ≠ [] ∧ ['\x0c'] ≠ [] ∧
      parse "\t12  3\r\n" = .ok ⟨12, 3⟩ ∧ parse "\t12  3\x0cR\r\n" = .ok ⟨12, 3⟩ := by
  have hbefore : IsGap ['\t'] := List.forall_mem_singleton.2 rfl
  have hfirst : IsGap [' ', ' '] := List.forall_mem_cons.2 ⟨rfl, List.forall_mem_singleton.2 rfl⟩
  have hsecond : IsGap ['\x0c'] := List.forall_mem_singleton.2 rfl
  have hafter : IsGap ['\r', '\n'] := List.forall_mem_cons.2 ⟨rfl, List.forall_mem_singleton.2 rfl⟩
  exact ⟨hbefore, hfirst, hsecond, hafter, by decide, by decide,
    (reads_two_numerals.2.2 ⟨12, 3⟩).2 hbefore hfirst hsecond hafter (by decide) (by decide)⟩

end ObjectId

end PdfStore
