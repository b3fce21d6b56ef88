import PdfStore.Proofs.DecimalDigits
import PdfStore.Proofs.FreeChain
import PdfStore.Proofs.MaximalRuns

/-!
# The lines of slots

The line of a slot has three columns, for the offset, the generation and the kind. They are found again as the words of
the line (`Slot.ofWords?`), whatever the slot is. They stand at fixed places (`Slot.ofPlaces?`) and the line is twenty
bytes long as long as the offset has at most ten digits; a larger one pushes aside what stands behind it.
-/

namespace PdfStore

/-! ## Words and bytes -/

theorem isWord_paddedDigits (width n : Nat) : Text.IsWord (paddedDigits width n) :=
  ⟨paddedDigits_ne_nil width n, fun c hc => Text.isBlank_of_isDigit (Form.isDigit_of_mem_paddedDigits c hc)⟩

theorem isAscii_of_isDigit {c : Char} (h : c.isDigit = true) : c.val ≤ 127 := by
  have hc : 48 ≤ c.val ∧ c.val ≤ 57 := by simpa [Char.isDigit] using h
  exact UInt32.le_trans hc.2 (by decide)

theorem Bytes.length_ofString {s : String} (h : ∀ c ∈ s.toList, c.val ≤ 127) :
    (ofString s).length = s.toList.length := by
  rw [ofString, List.length_flatMap]
  have hone : s.toList.map (fun c => (String.utf8EncodeChar c).length) = s.toList.map fun _ => 1 := by
    refine List.map_congr_left fun c hc => ?_
    rw [String.length_utf8EncodeChar, Char.utf8Size_eq_one_iff]
    exact h c hc
  rw [hone, List.map_const', List.sum_replicate_nat, Nat.mul_one]

theorem Text.words_word_blank {w : List Char} {c : Char} (hw : IsWord w) (hc : isBlank c = true) (rest : List Char) :
    words (w ++ c :: rest) = w :: words rest := by
  have hhead : ∀ d ∈ (c :: rest).head?, isBlank d = true := by simpa using hc
  rw [words_word hw hhead, words_blank hc]

/-! ## Reading a line -/

namespace Slot

variable {s : Slot}

/-- What a line tells of a slot: all but whether it has changed. -/
def listed (s : Slot) : Slot := { s with dirty := false }

/-- The slot that three columns tell of. -/
def ofColumns? (offset generation kind : List Char) : Option Slot := do
  let o ← Text.digits? offset
  let g ← Text.decimal? 65535 generation
  match kind with
  | ['n'] => some ⟨o, UInt16.ofNat g, true, false⟩
  | ['f'] => some ⟨o, UInt16.ofNat g, false, false⟩
  | _ => none

/-- Reads the columns at their places: ten characters, five and one, with a blank in between. -/
def ofPlaces? (line : List Char) : Option Slot :=
  ofColumns? (line.take 10) ((line.drop 11).take 5) ((line.drop 17).take 1)

/-- Reads the columns as the words of a line. -/
def ofWords? (line : List Char) : Option Slot :=
  match Text.words line with
  | [offset, generation, kind] => ofColumns? offset generation kind
  | _ => none

def kind (s : Slot) : Char := if s.inUse then 'n' else 'f'

theorem toList_line (s : Slot) : s.line.toList =
    paddedDigits 10 s.offset ++ ' ' :: (paddedDigits 5 s.generation.toNat ++ [' ', s.kind, ' ', '\n']) := by
  rw [line, String.toList_ofList, List.append_assoc, List.cons_append]
  rfl

theorem length_generation (g : UInt16) : (paddedDigits 5 g.toNat).length = 5 :=
  (length_paddedDigits_eq_iff (by decide)).2 (Nat.lt_trans g.toNat_lt (by decide))

theorem isNumeral_paddedDigits (width n : Nat) : Text.IsNumeral (paddedDigits width n) n :=
  ⟨_, Or.inl rfl, Text.digits?_eq_some_iff.1 (Text.digits?_paddedDigits width n)⟩

theorem ofColumns?_line (s : Slot) :
    ofColumns? (paddedDigits 10 s.offset) (paddedDigits 5 s.generation.toNat) [s.kind] = some s.listed := by
  have hgeneration : Text.decimal? 65535 (paddedDigits 5 s.generation.toNat) = some s.generation.toNat :=
    Text.decimal?_eq_some_iff.2 ⟨isNumeral_paddedDigits 5 _, Nat.le_of_lt_succ s.generation.toNat_lt⟩
  rw [ofColumns?, Text.digits?_paddedDigits, hgeneration]
  obtain ⟨o, g, inUse, dirty⟩ := s
  cases inUse <;> simp [kind, listed]

theorem offset_of_columns {offset generation kind : List Char} {read : Slot}
    (h : ofColumns? offset generation kind = some read) : Text.digits? offset = some read.offset := by
  obtain ⟨o, ho, h⟩ := Option.bind_eq_some_iff.1 h
  obtain ⟨g, -, h⟩ := Option.bind_eq_some_iff.1 h
  rw [ho]
  split at h
  · exact congrArg some (congrArg Slot.offset (Option.some.inj h))
  · exact congrArg some (congrArg Slot.offset (Option.some.inj h))
  · cases h

/-- The words of a text that goes on behind a line. -/
theorem words_line (s : Slot) (rest : List Char) : Text.words (s.line.toList ++ rest) =
    paddedDigits 10 s.offset :: paddedDigits 5 s.generation.toNat :: [s.kind] :: Text.words rest := by
  have hkind : Text.IsWord [s.kind] := by
    refine ⟨List.cons_ne_nil _ _, List.forall_mem_singleton.2 ?_⟩
    cases h : s.inUse <;> simp [kind, h, Text.isBlank]
  have hline : s.line.toList ++ rest = paddedDigits 10 s.offset ++ ' ' ::
      (paddedDigits 5 s.generation.toNat ++ ' ' :: ([s.kind] ++ ' ' :: '\n' :: rest)) := by
    simp [toList_line]
  rw [hline, Text.words_word_blank (isWord_paddedDigits _ _) rfl, Text.words_word_blank (isWord_paddedDigits _ _) rfl,
    Text.words_word_blank hkind rfl, Text.words_blank rfl]

theorem ofWords?_line (s : Slot) : ofWords? s.line.toList = some s.listed := by
  have hwords := words_line s []
  rw [List.append_nil] at hwords
  rw [ofWords?, hwords]
  exact ofColumns?_line s

/-! ## The width of a line -/

theorem isAscii_line (s : Slot) : ∀ c ∈ s.line.toList, c.val ≤ 127 := by
  have hkind : s.kind.val ≤ 127 := by
    rw [kind]
    split <;> decide
  simp only [toList_line, List.mem_append, List.mem_cons, List.not_mem_nil, or_false]
  rintro c (hc | rfl | hc | rfl | rfl | rfl | rfl)
  · exact isAscii_of_isDigit (Form.isDigit_of_mem_paddedDigits c hc)
  · decide
  · exact isAscii_of_isDigit (Form.isDigit_of_mem_paddedDigits c hc)
  · decide
  · exact hkind
  · decide
  · decide

theorem length_line (s : Slot) : (Bytes.ofString s.line).length = (paddedDigits 10 s.offset).length + 10 := by
  rw [Bytes.length_ofString s.isAscii_line, toList_line]
  simp only [List.length_append, List.length_cons, length_generation, List.length_nil]

theorem twenty_le_length_line (s : Slot) : 20 ≤ (Bytes.ofString s.line).length := by
  rw [length_line, length_paddedDigits]
  omega

theorem length_line_eq_iff : (Bytes.ofString s.line).length = 20 ↔ s.offset < 10 ^ 10 := by
  rw [length_line, ← length_paddedDigits_eq_iff (by decide)]
  omega

theorem ofPlaces?_columns {offset generation : List Char} {c : Char} (ho : offset.length = 10)
    (hg : generation.length = 5) :
    ofPlaces? (offset ++ ' ' :: (generation ++ [' ', c, ' ', '\n'])) = ofColumns? offset generation [c] := by
  have hdrop : ∀ i rest, (offset ++ rest).drop (10 + i) = rest.drop i := fun i rest => by
    rw [← ho, List.drop_length_add_append]
  have hgeneration : (offset ++ ' ' :: (generation ++ [' ', c, ' ', '\n'])).drop 11 =
      generation ++ [' ', c, ' ', '\n'] := hdrop 1 _
  have hkind : (offset ++ ' ' :: (generation ++ [' ', c, ' ', '\n'])).drop 17 = [c, ' ', '\n'] := by
    rw [hdrop 7, List.drop_succ_cons, show 6 = generation.length + 1 by rw [hg], List.drop_length_add_append]
    rfl
  rw [ofPlaces?, hgeneration, hkind, List.take_left' ho, List.take_left' hg]
  rfl

/-- The columns stand at their places exactly if the offset fits its column. -/
theorem ofPlaces?_line_iff : ofPlaces? s.line.toList = some s.listed ↔ s.offset < 10 ^ 10 := by
  constructor
  · intro h
    rw [ofPlaces?] at h
    have hdigits : Text.digits? (s.line.toList.take 10) = some s.listed.offset := offset_of_columns h
    have hlt : s.offset < 10 ^ (s.line.toList.take 10).length := Text.lt_of_digits? hdigits
    have hlen : (s.line.toList.take 10).length ≤ 10 := List.length_take_le _ _
    exact Nat.lt_of_lt_of_le hlt (Nat.pow_le_pow_right (by decide) hlen)
  · intro h
    have hoffset : (paddedDigits 10 s.offset).length = 10 := (length_paddedDigits_eq_iff (by decide)).2 h
    rw [toList_line, ofPlaces?_columns hoffset (length_generation _), ofColumns?_line]

end Slot

/-! ## Lines in a segment -/

theorem Bytes.ofString_join (l : List String) : ofString (String.join l) = (l.map ofString).flatten := by
  induction l with
  | nil => rfl
  | cons s l ih => rw [String.join_cons, ofString_append, ih, List.map_cons, List.flatten_cons]

namespace Table

variable {t : Table} {r : SlotRun} {i n : Nat} {s : Slot}

/-- What stands in a segment in front of its lines. -/
def header (r : SlotRun) : String := s!"{r.first} {r.length}\n"

/-- The lines of a segment. -/
def lines (t : Table) (r : SlotRun) : List Bytes :=
  r.numbers.map fun n => Bytes.ofString ((t.slot? n).getD default).line

/-- Where the line at a place of a segment begins, counted from the end of the header. -/
def lineStart (t : Table) (r : SlotRun) (i : Nat) : Nat := ((t.lines r).take i).flatten.length

theorem ofString_segmentText (t : Table) (r : SlotRun) :
    Bytes.ofString (t.segmentText r) = Bytes.ofString (header r) ++ (t.lines r).flatten := by
  rw [segmentText, Bytes.ofString_append, Bytes.ofString_join, List.map_map, lines, SlotRun.numbers, Function.comp_def,
    header]

theorem getElem?_lines (hi : i < r.length) (hs : t.slot? (r.first + i) = some s) :
    (t.lines r)[i]? = some (Bytes.ofString s.line) := by
  rw [lines, List.getElem?_map, SlotRun.numbers, List.getElem?_range' hi, Nat.one_mul, Option.map_some, hs]
  rfl

theorem lineStart_succ (hi : i < r.length) (hs : t.slot? (r.first + i) = some s) :
    t.lineStart r (i + 1) = t.lineStart r i + (Bytes.ofString s.line).length := by
  rw [lineStart, List.take_add_one, getElem?_lines hi hs, List.flatten_append, List.length_append]
  simp [lineStart]

/-- Behind the lines in front of it stands the line. -/
theorem line_prefix (hi : i < r.length) (hs : t.slot? (r.first + i) = some s) :
    Bytes.ofString s.line <+: (Bytes.ofString (t.segmentText r)).drop
      ((Bytes.ofString (header r)).length + t.lineStart r i) := by
  have hline := List.getElem?_eq_some_iff.1 (getElem?_lines hi hs)
  obtain ⟨hlt, hline⟩ := hline
  have hsplit : (t.lines r).flatten =
      ((t.lines r).take i).flatten ++ (Bytes.ofString s.line ++ ((t.lines r).drop (i + 1)).flatten) := by
    rw [← hline, ← List.flatten_cons, ← List.drop_eq_getElem_cons hlt, ← List.flatten_append, List.take_append_drop]
  rw [ofString_segmentText, List.drop_length_add_append, hsplit, lineStart, List.drop_left]
  exact List.prefix_append _ _

/-- The slots of a segment stand in the table. -/
theorem changed_of_mem (hr : r ∈ t.segments) (hi : i < r.length) : t.Changed (r.first + i) :=
  mem_segments_iff.1 ⟨r, hr, SlotRun.mem_numbers.2 ⟨Nat.le_add_right _ _, Nat.add_lt_add_left hi _⟩⟩

theorem twenty_mul_le_lineStart (hr : r ∈ t.segments) (hi : i ≤ r.length) : 20 * i ≤ t.lineStart r i := by
  induction i with
  | zero => exact Nat.zero_le _
  | succ i ih =>
      obtain ⟨s, hs, -⟩ := changed_of_mem hr hi
      have hline := s.twenty_le_length_line
      have hstart := ih (Nat.le_of_lt hi)
      rw [lineStart_succ hi hs]
      omega

theorem lineStart_eq_iff (hr : r ∈ t.segments) (hi : i ≤ r.length) : t.lineStart r i = 20 * i ↔
    ∀ k < i, ∀ s, t.slot? (r.first + k) = some s → s.offset < 10 ^ 10 := by
  induction i with
  | zero => exact ⟨fun _ k hk => absurd hk (Nat.not_lt_zero k), fun _ => rfl⟩
  | succ i ih =>
      obtain ⟨s, hs, -⟩ := changed_of_mem hr hi
      have hlow := twenty_mul_le_lineStart hr (Nat.le_of_lt hi)
      have hline := s.twenty_le_length_line
      have hsum : t.lineStart r (i + 1) = 20 * (i + 1) ↔
          t.lineStart r i = 20 * i ∧ (Bytes.ofString s.line).length = 20 := by
        rw [lineStart_succ hi hs]
        omega
      have hlast : (∀ s', t.slot? (r.first + i) = some s' → s'.offset < 10 ^ 10) ↔ s.offset < 10 ^ 10 := by
        simp [hs]
      rw [hsum, ih (Nat.le_of_lt hi), Slot.length_line_eq_iff, Nat.forall_lt_succ_right, hlast]

/-- Every line is read back as its slot by its words. It has twenty bytes, or more if the offset has more than ten
digits; without such offsets its columns stand at their places, and the lines of a segment each twenty bytes behind the
one before. -/
theorem lines_of_slots (t : Table) (s : Slot) :
    (Slot.ofWords? s.line.toList = some s.listed ∧ 20 ≤ (Bytes.ofString s.line).length ∧
      ((Bytes.ofString s.line).length = 20 ↔ s.offset < 10 ^ 10) ∧
      (Slot.ofPlaces? s.line.toList = some s.listed ↔ s.offset < 10 ^ 10)) ∧
    ∀ r ∈ t.segments, ∀ i < r.length, ∃ s, t.slot? (r.first + i) = some s ∧ s.dirty = true ∧
      Bytes.ofString s.line <+: (Bytes.ofString (t.segmentText r)).drop
        ((Bytes.ofString (header r)).length + t.lineStart r i) ∧
      20 * i ≤ t.lineStart r i ∧
      (t.lineStart r i = 20 * i ↔ ∀ k < i, ∀ s, t.slot? (r.first + k) = some s → s.offset < 10 ^ 10) := by
  refine ⟨⟨s.ofWords?_line, s.twenty_le_length_line, Slot.length_line_eq_iff, Slot.ofPlaces?_line_iff⟩, ?_⟩
  intro r hr i hi
  obtain ⟨s, hs, hdirty⟩ := changed_of_mem hr hi
  exact ⟨s, hs, hdirty, line_prefix hi hs, twenty_mul_le_lineStart hr (Nat.le_of_lt hi),
    lineStart_eq_iff hr (Nat.le_of_lt hi)⟩

/-- Behind a line with an offset of eleven digits the next one does not begin at its place. -/
theorem lines_of_slots_of_wide : ∃ t : Table,
    t.toList = [⟨0, 2, false, true⟩, ⟨10000000000, 0, true, true⟩, ⟨15, 0, true, true⟩] ∧ ⟨0, 3⟩ ∈ t.segments ∧
      1 < 3 ∧ t.lineStart ⟨0, 3⟩ 1 = 20 ∧ 2 < 3 ∧ 40 < t.lineStart ⟨0, 3⟩ 2 ∧
      Slot.ofWords? (Slot.mk 15 0 true true).line.toList = some ⟨15, 0, true, false⟩ ∧
      Bytes.ofString "0000000015 00000 n \n" <+: (Bytes.ofString (t.segmentText ⟨0, 3⟩)).drop
        ((Bytes.ofString (header ⟨0, 3⟩)).length + t.lineStart ⟨0, 3⟩ 2) := by
  obtain ⟨first, hfirst, -⟩ := ofCluster_ok (Nat.le_refl 2) 2
  let calls : List Call := [.reserve, .reserve, .setOffset ⟨1, 0⟩ 10000000000, .setOffset ⟨2, 0⟩ 15]
  have hslots : (ofCluster 2 2).toOption.map (fun t => (Operation.after perform calls t).toList) =
      some [⟨0, 2, false, true⟩, ⟨10000000000, 0, true, true⟩, ⟨15, 0, true, true⟩] := by
    decide +kernel
  rw [hfirst] at hslots
  have hlist : (Operation.after perform calls first).toList =
      [⟨0, 2, false, true⟩, ⟨10000000000, 0, true, true⟩, ⟨15, 0, true, true⟩] := Option.some.inj hslots
  -- What the calls lead to is not to be computed again.
  generalize Operation.after perform calls first = t at hlist
  have hsegment : ⟨0, 3⟩ ∈ t.segments := by
    rw [segments, hlist]
    exact List.mem_cons_self
  have hslot : ∀ n, t.slot? n = [⟨0, 2, false, true⟩, ⟨10000000000, 0, true, true⟩, ⟨15, 0, true, true⟩][n]? := by
    intro n
    rw [slot?_eq_getElem?, hlist]
  obtain ⟨⟨hread, -⟩, hlines⟩ := lines_of_slots t ⟨15, 0, true, true⟩
  obtain ⟨s, hs, -, hline, hlow, hstart⟩ := hlines ⟨0, 3⟩ hsegment 2 (by decide)
  obtain ⟨-, -, -, -, -, hfirst⟩ := hlines ⟨0, 3⟩ hsegment 1 (by decide)
  obtain rfl : ⟨15, 0, true, true⟩ = s := Option.some.inj ((hslot 2).symm.trans hs)
  refine ⟨t, hlist, hsegment, by decide, hfirst.2 ?_, by decide, Nat.lt_of_le_of_ne hlow fun heq => ?_, hread, hline⟩
  · intro k hk s hs
    obtain rfl : k = 0 := Nat.lt_one_iff.1 hk
    obtain rfl : ⟨0, 2, false, true⟩ = s := Option.some.inj ((hslot 0).symm.trans hs)
    decide
  · exact absurd (hstart.1 heq.symm 1 (by decide) _ (hslot 1)) (by decide)

/-- A table takes an offset of eleven digits, and the line of the slot is longer than the others. -/
theorem not_length_line_eq_twenty : ¬∀ (cluster : Nat) (limit : UInt16) (first t : Table) (log : Log),
    ofCluster cluster limit = .ok first → Runs perform first log t →
      ∀ s ∈ t.toList, s.offset < 2 ^ 64 → (Bytes.ofString s.line).length = 20 := by
  intro h
  obtain ⟨first, hfirst, -⟩ := ofCluster_ok (Nat.le_refl 2) 2
  let calls : List Call := [.reserve, .setOffset ⟨1, 0⟩ 10000000000]
  have hslots : (ofCluster 2 2).toOption.map (fun t => (Operation.after perform calls t).toList) =
      some [⟨0, 2, false, true⟩, ⟨10000000000, 0, true, true⟩] := by
    decide +kernel
  rw [hfirst] at hslots
  have hlist : (Operation.after perform calls first).toList =
      [⟨0, 2, false, true⟩, ⟨10000000000, 0, true, true⟩] := Option.some.inj hslots
  have hlength := h 2 2 first _ _ hfirst (runs_events perform calls first) ⟨10000000000, 0, true, true⟩
    (hlist ▸ List.mem_cons_of_mem _ List.mem_cons_self) (by decide)
  exact absurd (Slot.length_line_eq_iff.1 hlength) (by decide)

end Table

end PdfStore
