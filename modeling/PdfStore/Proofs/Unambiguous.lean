import PdfStore.Proofs.Reading
import PdfStore.Proofs.WrittenForm

/-!
# The written form is unambiguous

An object that can be written is read back from its bytes as its form (`Object.read?_toBytes`), so two
objects with the same bytes have the same form. An object is read wherever it stands, and what follows it
shows where it ends (`Ends`): nothing, a closing bracket, or a blank after which no reference goes on.
-/

namespace PdfStore

variable {table : Option ReferenceTable}

/-! ## What sequences of tokens write -/

theorem complete_writeTokens_text {a b : Bytes} {ts : List Token} :
    (writeTokens table (.text a :: ts)).complete = .ok b ↔
      ∃ b', (writeTokens table ts).complete = .ok b' ∧ b = a ++ b' := by
  rw [complete_writeTokens_cons]
  constructor
  · rintro ⟨b₁, b₂, h₁, h₂, rfl⟩
    cases h₁
    exact ⟨b₂, h₂, rfl⟩
  · rintro ⟨b₂, h₂, rfl⟩
    exact ⟨a, b₂, rfl, h₂, rfl⟩

/-- The first of some items written with blanks between them, and what is written after it. -/
theorem complete_spaced_cons {b : Bytes} {ts : List Token} {rest : List (List Token)}
    (h : (writeTokens table (spaced (ts :: rest))).complete = .ok b) :
    ∃ b₁ tail, (writeTokens table ts).complete = .ok b₁ ∧ b = b₁ ++ tail ∧
      (rest = [] ∧ tail = [] ∨
        rest ≠ [] ∧ ∃ b₂, tail = 0x20 :: b₂ ∧ (writeTokens table (spaced rest)).complete = .ok b₂) := by
  cases rest with
  | nil =>
      simp only [spaced, List.intercalate, List.intersperse_singleton, List.flatten_cons, List.flatten_nil,
        List.append_nil] at h
      exact ⟨b, [], h, (List.append_nil b).symm, Or.inl ⟨rfl, rfl⟩⟩
  | cons ts' rest =>
      simp only [spaced, List.intercalate, List.intersperse_cons_cons, List.flatten_cons] at h
      obtain ⟨b₁, b₂, h₁, h₂, rfl⟩ := complete_writeTokens_append.1 h
      obtain ⟨b₃, h₃, rfl⟩ := complete_writeTokens_text.1 h₂
      exact ⟨b₁, _, h₁, rfl, Or.inr ⟨List.cons_ne_nil _ _, b₃, rfl, h₃⟩⟩

theorem complete_bracketed {first last : String} {b : Bytes} {ts : List Token}
    (h : (writeTokens table (.ofString first :: ts ++ [.ofString last])).complete = .ok b) :
    ∃ b', (writeTokens table ts).complete = .ok b' ∧
      b = Bytes.ofString first ++ (b' ++ Bytes.ofString last) := by
  obtain ⟨b₁, h₁, rfl⟩ := complete_writeTokens_text.1 h
  obtain ⟨b₂, b₃, h₂, h₃, rfl⟩ := complete_writeTokens_append.1 h₁
  obtain ⟨b₄, h₄, rfl⟩ := complete_writeTokens_text.1 h₃
  rw [complete_writeTokens_nil.1 h₄, List.append_nil]
  exact ⟨b₂, h₂, rfl⟩

theorem complete_entryTokens {k : Name} {ts : List Token} {b : Bytes}
    (h : (writeTokens table (entryTokens (k, ts))).complete = .ok b) :
    ∃ b', (writeTokens table ts).complete = .ok b' ∧ b = 0x2F :: (nameBytes k ++ 0x20 :: b') := by
  obtain ⟨b₁, h₁, rfl⟩ := complete_writeTokens_text.1 h
  obtain ⟨b₂, h₂, rfl⟩ := complete_writeTokens_text.1 h₁
  exact ⟨b₂, h₂, rfl⟩

namespace Form

/-! ## Where an object ends -/

/-- What may follow an object: nothing, or a delimiter that does not begin the rest of a reference. -/
structure Ends (r : Bytes) : Prop where
  delimiter : ∀ b ∈ r.head?, b = 0x20 ∨ b = 0x5D ∨ b = 0x3E
  noMark : r.dropPrefix? [0x20, 0x52] = none
  noGeneration : generation? r = none

variable {b r : Bytes} {c : UInt8} {f : Form}

theorem generation?_of_ne (h : c ≠ 0x20) : generation? (c :: r) = none := by
  simp [generation?, List.dropPrefix?, h]

theorem generation?_blank (r : Bytes) : generation? (0x20 :: r) =
    ((r.dropWhile isDigit).dropPrefix? [0x20, 0x52]).map fun rest => (r.takeWhile isDigit, rest) := by
  cases h : (r.dropWhile isDigit).dropPrefix? [0x20, 0x52] <;> simp [generation?, List.dropPrefix?, h]

theorem ends_nil : Ends [] := ⟨by simp, rfl, rfl⟩

theorem ends_close (h : c = 0x5D ∨ c = 0x3E) (r : Bytes) : Ends (c :: r) := by
  have hc : c ≠ 0x20 := by rcases h with rfl | rfl <;> decide
  exact ⟨by simp [h], by simp [List.dropPrefix?, hc], generation?_of_ne hc⟩

theorem ends_key (r : Bytes) : Ends (0x20 :: 0x2F :: r) :=
  ⟨by simp, by simp [List.dropPrefix?], by simp [generation?_blank, isDigit, List.dropPrefix?]⟩

theorem Ends.not (h : Ends r) {p : UInt8 → Bool} (hp : p 0x20 = false ∧ p 0x5D = false ∧ p 0x3E = false) :
    ∀ b ∈ r.head?, p b = false := by
  intro b hb
  rcases h.delimiter b hb with rfl | rfl | rfl
  · exact hp.1
  · exact hp.2.1
  · exact hp.2.2

/-- Bytes that are read as an object wherever they stand. -/
structure Reads (b : Bytes) (f : Form) : Prop where
  opens : ∃ c rest, b = c :: rest ∧ c ≠ 0x20 ∧ c ≠ 0x5D ∧ c ≠ 0x3E ∧ c ≠ 0x52
  noGeneration : ∀ {r}, Ends r → generation? (0x20 :: (b ++ r)) = none
  read : ∀ {n r}, b.length ≤ n → Ends r → readObject n (b ++ r) = some (f, r)

theorem Reads.ends_blank (h : Reads b f) (hr : Ends r) : Ends (0x20 :: (b ++ r)) := by
  obtain ⟨c, rest, rfl, -, -, -, hc⟩ := h.opens
  exact ⟨by simp, by simp [List.dropPrefix?, hc], h.noGeneration hr⟩

/-- What does not begin with a digit is no generation. -/
theorem Reads.of_opens {rest : Bytes} (hd : isDigit c = false)
    (hc : c ≠ 0x20 ∧ c ≠ 0x5D ∧ c ≠ 0x3E ∧ c ≠ 0x52)
    (read : ∀ {n r}, rest.length ≤ n → Ends r → readObject (n + 1) (c :: (rest ++ r)) = some (f, r)) :
    Reads (c :: rest) f := by
  refine ⟨⟨c, rest, rfl, hc⟩, fun _ => ?_, fun {n r} hn hr => ?_⟩
  · rw [List.cons_append, generation?_blank, List.dropWhile_cons_of_neg (by simp [hd])]
    simp [List.dropPrefix?, hc.1]
  · obtain ⟨m, rfl⟩ := Nat.exists_eq_add_one.2 (Nat.lt_of_lt_of_le (Nat.succ_pos _) hn)
    exact read (Nat.le_of_succ_le_succ hn) hr

/-! ## Leaves -/

theorem readObject_leaf {n : Nat} (h₁ : c ≠ 0x5B) (h₂ : c ≠ 0x3C ∨ b.head? ≠ some 0x3C) :
    readObject (n + 1) (c :: b) = readLeaf (c :: b) := by
  have hitems : (c :: b).dropPrefix? [0x5B] = none := by simp [List.dropPrefix?, h₁]
  have hkeyed : (c :: b).dropPrefix? [0x3C, 0x3C] = none := by
    cases b with
    | nil => by_cases hc : c = 0x3C <;> simp [List.dropPrefix?, hc]
    | cons d b => rcases h₂ with h₂ | h₂ <;> simp_all [List.dropPrefix?]
  simp only [readObject, hitems, hkeyed]

theorem reads_word {word : String} {rest : Bytes} (hw : Bytes.ofString word = c :: rest)
    (hc : c ≠ 0x20 ∧ c ≠ 0x5D ∧ c ≠ 0x3E ∧ c ≠ 0x52) (hd : isDigit c = false) (h₁ : c ≠ 0x5B) (h₂ : c ≠ 0x3C)
    (hleaf : ∀ b, readLeaf (c :: b) = readWord word f (c :: b)) : Reads (Bytes.ofString word) f := by
  rw [hw]
  refine Reads.of_opens hd hc fun {n r} _ _ => ?_
  rw [readObject_leaf h₁ (Or.inl h₂), hleaf, readWord, hw, ← List.cons_append,
    List.dropPrefix?_append_of_beq _ (beq_self_eq_true _)]
  rfl

theorem reads_null : Reads (Bytes.ofString "null") .null :=
  reads_word rfl (by decide) (by decide) (by decide) (by decide) fun _ => rfl

theorem reads_boolean (v : Bool) : Reads (Bytes.ofString (if v then "true" else "false")) (.boolean v) := by
  cases v with
  | true => exact reads_word rfl (by decide) (by decide) (by decide) (by decide) fun _ => rfl
  | false => exact reads_word rfl (by decide) (by decide) (by decide) (by decide) fun _ => rfl

theorem reads_name (n : Name) : Reads (0x2F :: nameBytes n) (.name n) := by
  refine Reads.of_opens (by decide) (by decide) fun _ hr => (readObject_leaf (by decide) (Or.inl (by decide))).trans ?_
  change (readName (nameBytes n ++ _)).map _ = _
  rw [readName_nameBytes (hr.not (by decide))]
  rfl

theorem reads_literal (s : Bytes) : Reads (0x28 :: (s.flatMap literalByte ++ [0x29])) (.string ⟨s, .literal⟩) := by
  refine Reads.of_opens (by decide) (by decide) fun _ _ => (readObject_leaf (by decide) (Or.inl (by decide))).trans ?_
  rw [List.append_assoc]
  change (readLiteral (s.flatMap literalByte ++ 0x29 :: _)).map _ = _
  rw [readLiteral_append]
  rfl

theorem reads_hex (s : Bytes) : Reads (0x3C :: (s.flatMap Bytes.hexPair ++ [0x3E])) (.string ⟨s, .hex⟩) := by
  have hhead : ∀ r, (s.flatMap Bytes.hexPair ++ 0x3E :: r).head? ≠ some 0x3C := fun r => by
    cases s with
    | nil => simp
    | cons b s =>
        have hb := b.toNat_lt
        simp [Bytes.hexPair, hexDigit_ne_open (show b.toNat / 16 < 16 by omega)]
  refine Reads.of_opens (by decide) (by decide) fun {n r} _ _ => ?_
  rw [List.append_assoc]
  refine (readObject_leaf (by decide) (Or.inr (hhead r))).trans ?_
  change (readHex (s.flatMap Bytes.hexPair ++ 0x3E :: r)).map _ = _
  rw [readHex_append]
  rfl

/-! ## Numbers and references -/

theorem numeral_opens (hc : isNumeral c) : c ≠ 0x20 ∧ c ≠ 0x5D ∧ c ≠ 0x3E ∧ c ≠ 0x52 := by
  refine ⟨?_, ?_, ?_, ?_⟩ <;> rintro rfl <;> exact absurd hc (by decide)

theorem readObject_numeral {n : Nat} (hc : isNumeral c) (b : Bytes) :
    readObject (n + 1) (c :: b) = readNumeral (c :: b) := by
  have hne : ∀ d, isNumeral d = false → c ≠ d := by
    rintro d hd rfl
    rw [hd] at hc
    cases hc
  rw [readObject_leaf (hne _ (by decide)) (Or.inl (hne _ (by decide))), readLeaf]
  split
  all_goals first | rfl | (rename_i h; injection h with h; exact absurd h (hne _ (by decide)))

/-- What is read as a number or a reference, provided that it is not taken for a generation. -/
theorem Reads.of_numeral {rest : Bytes} (hc : isNumeral c)
    (noGeneration : ∀ {r}, Ends r → generation? (0x20 :: (c :: rest ++ r)) = none)
    (read : ∀ {r}, Ends r → readNumeral (c :: rest ++ r) = some (f, r)) : Reads (c :: rest) f := by
  refine ⟨⟨c, rest, rfl, numeral_opens hc⟩, noGeneration, fun {n r} hn hr => ?_⟩
  obtain ⟨m, rfl⟩ := Nat.exists_eq_add_one.2 (Nat.lt_of_lt_of_le (Nat.succ_pos _) hn)
  exact (readObject_numeral hc _).trans (read hr)

theorem reads_number {text : Bytes} (h : ∀ b ∈ text, isNumeral b) (hne : text ≠ []) :
    Reads text (.number text) := by
  obtain ⟨c, rest, rfl⟩ := List.exists_cons_of_ne_nil hne
  refine Reads.of_numeral (h c List.mem_cons_self) (fun {r} hr => ?_) fun {r} hr => ?_
  · -- Digits up to the end are followed by no mark; before a sign or a point there is no blank.
    rw [generation?_blank, List.dropWhile_append]
    split
    · have hdrop : r.dropWhile isDigit = r := (@run_append isDigit [] r (by simp) (hr.not (by decide))).2
      rw [hdrop, hr.noMark]
      rfl
    · rename_i hd
      have hne : (c :: rest).dropWhile isDigit ≠ [] := fun hnil => hd (by rw [hnil]; rfl)
      obtain ⟨d, ds, hds⟩ := List.exists_cons_of_ne_nil hne
      have hmem : d ∈ c :: rest := (List.dropWhile_suffix isDigit).subset (hds ▸ List.mem_cons_self)
      rw [hds, List.cons_append]
      simp [List.dropPrefix?, (numeral_opens (h d hmem)).1]
  · obtain ⟨htake, hdrop⟩ := run_append h (hr.not (by decide))
    simp only [readNumeral, htake, hdrop, hr.noGeneration, reduceCtorEq, ↓reduceIte]

theorem ofString_token (id : ObjectId) : Bytes.ofString id.token =
    Bytes.ofString (toString id.number.toNat) ++
      (0x20 :: (Bytes.ofString (toString id.generation.toNat) ++ [0x20, 0x52])) := by
  simp only [ObjectId.token, Bytes.ofString_append, List.append_assoc]
  rfl

theorem generation?_toString (g : Nat) (r : Bytes) :
    generation? (0x20 :: (Bytes.ofString (toString g) ++ (0x20 :: 0x52 :: r))) =
      some (Bytes.ofString (toString g), r) := by
  obtain ⟨htake, hdrop⟩ := @run_append isDigit _ (0x20 :: 0x52 :: r) (@isDigit_of_mem_toString g)
    (by simp [isDigit])
  rw [generation?_blank, htake, hdrop]
  simp [List.dropPrefix?]

theorem readNumeral_token (id : ObjectId) (r : Bytes) :
    readNumeral (Bytes.ofString id.token ++ r) = some (.reference (some id), r) := by
  obtain ⟨n, g⟩ := id
  have hg := generation?_toString g.toNat r
  obtain ⟨htake, hdrop⟩ := @run_append isNumeral _
    (0x20 :: (Bytes.ofString (toString g.toNat) ++ (0x20 :: 0x52 :: r)))
    (fun b hb => isNumeral_of_isDigit (@isDigit_of_mem_toString n.toNat b hb)) (by simp [isNumeral, isDigit])
  rw [ofString_token, List.append_assoc, List.cons_append, List.append_assoc]
  change readNumeral (_ ++ (0x20 :: (_ ++ (0x20 :: 0x52 :: r)))) = _
  simp only [readNumeral, htake, hdrop, hg, natural?_toString]
  simp [Option.filter, n.toNat_lt, g.toNat_lt]

theorem reads_reference (id : ObjectId) : Reads (Bytes.ofString id.token) (.reference (some id)) := by
  have hdigit : ∀ {k : Nat} {c : UInt8} {rest : Bytes}, Bytes.ofString (toString k) = c :: rest → isDigit c :=
    fun h => isDigit_of_mem_toString _ (h ▸ List.mem_cons_self)
  obtain ⟨c, rest, hn⟩ := List.exists_cons_of_ne_nil (toString_ne_nil id.number.toNat)
  obtain ⟨d, rest', hg⟩ := List.exists_cons_of_ne_nil (toString_ne_nil id.generation.toNat)
  obtain ⟨tail, htail⟩ : ∃ tail, Bytes.ofString id.token = c :: tail := ⟨_, by rw [ofString_token, hn]; rfl⟩
  rw [htail]
  refine Reads.of_numeral (isNumeral_of_isDigit (hdigit hn)) (fun {r} _ => ?_) fun {r} _ => ?_
  · -- The number is followed by a generation, not by the mark.
    have hd : d ≠ 0x52 := by
      rintro rfl
      exact absurd (hdigit hg) (by decide)
    rw [← htail, ofString_token, List.append_assoc, generation?_blank,
      (run_append isDigit_of_mem_toString (by simp [isDigit])).2, hg]
    simp [List.dropPrefix?, hd]
  · rw [← htail, readNumeral_token]

/-! ## Sequences of tokens that are read as an object -/

/-- Tokens that are read as an object whenever they can be written. -/
def Readable (table : Option ReferenceTable) (ts : List Token) (f : Form) : Prop :=
  ∀ ⦃b⦄, (writeTokens table ts).complete = .ok b → Reads b f

/-- A key and tokens that are read as an entry. -/
def ReadableEntry (table : Option ReferenceTable) (e : Name × List Token) (f : Name × Form) : Prop :=
  e.1 = f.1 ∧ Readable table e.2 f.2

theorem readable_token {t : Token} (h : ∀ {b}, t.bytes table = .ok b → Reads b f) : Readable table [t] f := by
  intro b hb
  obtain ⟨b₁, b₂, hb₁, hb₂, rfl⟩ := complete_writeTokens_cons.1 hb
  rw [complete_writeTokens_nil.1 hb₂, List.append_nil]
  exact h hb₁

theorem readable_text {a : Bytes} (h : Reads a f) : Readable table [.text a] f := by
  refine readable_token fun {b} hb => ?_
  cases hb
  exact h

theorem readable_number (n : Number) : Readable table [numberToken n] (.number n.text) := by
  have h : Reads n.text (.number n.text) := reads_number isNumeral_of_mem_text (text_ne_nil n)
  cases n with
  | integer n => exact readable_text h
  | real x =>
      refine readable_token fun {b} hb => ?_
      rw [numberToken, Token.bytes] at hb
      split at hb
      · cases hb
        exact h
      · cases hb

theorem readable_string (s : ByteString) : Readable table [stringToken s] (.string s) := by
  obtain ⟨bytes, form⟩ := s
  cases form with
  | literal => exact readable_text (reads_literal bytes)
  | hex => exact readable_text (reads_hex bytes)

theorem readable_reference (r : Reference) :
    Readable table [.reference r] (.reference (writtenIdentity table r)) := by
  refine readable_token fun {b} hb => ?_
  cases table with
  | none =>
      cases hb
      exact reads_reference .sentinel
  | some identity =>
      simp only [Token.bytes] at hb
      split at hb
      · rename_i id hid
        cases hb
        rw [writtenIdentity, hid]
        exact reads_reference id
      · cases hb

/-! ## Arrays -/

theorem readItems_close (n : Nat) (r : Bytes) : readItems (n + 1) (0x5D :: r) = some ([], r) := rfl

theorem readItems_blank (n : Nat) (r : Bytes) : readItems (n + 1) (0x20 :: r) = readItems n r := rfl

theorem readItems_item {n : Nat} {r r' : Bytes} (hc : c ≠ 0x20 ∧ c ≠ 0x5D)
    (h : readObject n (c :: r) = some (f, r')) :
    readItems (n + 1) (c :: r) = (readItems n r').map fun p => (f :: p.1, p.2) := by
  rw [readItems]
  split
  · rename_i h
    exact absurd (Option.some.inj h) hc.2
  · rename_i h
    exact absurd (Option.some.inj h) hc.1
  · rw [h, Option.bind_some]

/-- Items with blanks between them are read back. The first of them does not end a reference that a number
before it could begin. -/
theorem readItems_spaced {tss : List (List Token)} {fs : List Form}
    (h : List.Forall₂ (Readable table) tss fs) {b : Bytes}
    (hb : (writeTokens table (spaced tss)).complete = .ok b) (r : Bytes) :
    (∀ {n}, b.length < n → readItems n (b ++ 0x5D :: r) = some (fs, r)) ∧
      (tss ≠ [] → Ends (0x20 :: (b ++ 0x5D :: r))) := by
  induction h generalizing b with
  | nil =>
      rw [complete_writeTokens_nil.1 hb]
      refine ⟨fun {n} hn => ?_, fun h => absurd rfl h⟩
      obtain ⟨m, rfl⟩ := Nat.exists_eq_add_one.2 hn
      exact readItems_close m r
  | @cons ts f tss fs hf hfs ih =>
      obtain ⟨b₁, tail, hb₁, rfl, htail⟩ := complete_spaced_cons hb
      have hread := hf hb₁
      have hends : Ends (tail ++ 0x5D :: r) := by
        rcases htail with ⟨-, rfl⟩ | ⟨hne, b₂, rfl, hb₂⟩
        · exact ends_close (Or.inl rfl) r
        · exact (ih hb₂).2 hne
      rw [List.append_assoc]
      refine ⟨fun {n} hn => ?_, fun _ => hread.ends_blank hends⟩
      obtain ⟨c, rest, rfl, h₁, h₂, -, -⟩ := hread.opens
      simp only [List.length_append, List.length_cons] at hn
      obtain ⟨m, rfl⟩ := Nat.exists_eq_add_one.2 (show 0 < n by omega)
      have hitem := hread.read (n := m) (by simp; omega) hends
      rw [List.cons_append] at hitem ⊢
      rw [readItems_item ⟨h₁, h₂⟩ hitem]
      obtain ⟨k, rfl⟩ := Nat.exists_eq_add_one.2 (show 0 < m by omega)
      have htail : readItems (k + 1) (tail ++ 0x5D :: r) = some (fs, r) := by
        rcases htail with ⟨hnil, rfl⟩ | ⟨hne, b₂, rfl, hb₂⟩
        · subst hnil
          cases hfs
          exact readItems_close k r
        · rw [List.length_cons] at hn
          exact (readItems_blank k _).trans ((ih hb₂).1 (by omega))
      rw [htail]
      rfl

theorem readable_array {tss : List (List Token)} {fs : List Form} (h : List.Forall₂ (Readable table) tss fs) :
    Readable table (arrayTokens tss) (.array fs) := by
  intro b hb
  obtain ⟨b, hitems, rfl⟩ := complete_bracketed hb
  refine @Reads.of_opens 0x5B _ (b ++ [0x5D]) (by decide) (by decide) fun {n r} hn _ => ?_
  rw [List.length_append, List.length_singleton] at hn
  have hopen : (0x5B :: (b ++ [0x5D] ++ r)).dropPrefix? [0x5B] = some (b ++ 0x5D :: r) := by
    simp [List.dropPrefix?]
  simp only [readObject, hopen, (readItems_spaced h hitems r).1 hn, Option.map_some]

/-! ## Dictionaries and streams -/

theorem readEntries_close (n : Nat) (r : Bytes) : readEntries (n + 1) (0x3E :: 0x3E :: r) = some ([], r) := by
  simp [readEntries, List.dropPrefix?]

theorem readEntries_blank (n : Nat) (r : Bytes) : readEntries (n + 1) (0x20 :: r) = readEntries n r := rfl

theorem readEntries_entry {n : Nat} {k : Name} {r r' : Bytes} (h : readObject n r = some (f, r')) :
    readEntries (n + 1) (0x2F :: (nameBytes k ++ 0x20 :: r)) =
      (readEntries n r').map fun p => ((k, f) :: p.1, p.2) := by
  have hk : readName (nameBytes k ++ 0x20 :: r) = some (k, 0x20 :: r) := by
    refine readName_nameBytes fun b hb => ?_
    cases hb
    decide
  rw [readEntries]
  change (readName _).bind _ = _
  rw [List.tail_cons, hk, Option.bind_some, List.tail_cons, h, Option.bind_some]

/-- Entries with blanks between them are read back. -/
theorem readEntries_spaced {es : List (Name × List Token)} {fs : List (Name × Form)}
    (h : List.Forall₂ (ReadableEntry table) es fs) {b : Bytes}
    (hb : (writeTokens table (spaced (es.map entryTokens))).complete = .ok b) (r : Bytes) :
    (∀ {n}, b.length < n → readEntries n (b ++ 0x3E :: 0x3E :: r) = some (fs, r)) ∧
      (es ≠ [] → Ends (0x20 :: (b ++ 0x3E :: 0x3E :: r))) := by
  induction h generalizing b with
  | nil =>
      rw [complete_writeTokens_nil.1 hb]
      refine ⟨fun {n} hn => ?_, fun h => absurd rfl h⟩
      obtain ⟨m, rfl⟩ := Nat.exists_eq_add_one.2 hn
      exact readEntries_close m r
  | @cons e f es fs hf hfs ih =>
      obtain ⟨k, ts⟩ := e
      obtain ⟨k', f⟩ := f
      obtain ⟨rfl, hf⟩ := hf
      obtain ⟨b₁, tail, hb₁, rfl, htail⟩ := complete_spaced_cons hb
      obtain ⟨b₂, hb₂, rfl⟩ := complete_entryTokens hb₁
      have hends : Ends (tail ++ 0x3E :: 0x3E :: r) := by
        rcases htail with ⟨-, rfl⟩ | ⟨hne, b₃, rfl, hb₃⟩
        · exact ends_close (Or.inr rfl) _
        · exact (ih hb₃).2 fun hnil => hne (hnil ▸ rfl)
      refine ⟨fun {n} hn => ?_, fun _ => ends_key _⟩
      simp only [List.cons_append, List.length_cons, List.length_append, List.append_assoc] at hn ⊢
      obtain ⟨m, rfl⟩ := Nat.exists_eq_add_one.2 (show 0 < n by omega)
      obtain ⟨l, rfl⟩ := Nat.exists_eq_add_one.2 (show 0 < m by omega)
      have htail : readEntries (l + 1) (tail ++ 0x3E :: 0x3E :: r) = some (fs, r) := by
        rcases htail with ⟨hnil, rfl⟩ | ⟨hne, b₃, rfl, hb₃⟩
        · rw [List.map_eq_nil_iff.1 hnil] at hfs
          cases hfs
          exact readEntries_close l r
        · rw [List.length_cons] at hn
          exact (readEntries_blank l _).trans ((ih hb₃).1 (by omega))
      rw [readEntries_entry ((hf hb₂).read (by omega) hends), htail]
      rfl

theorem dropPrefix?_stream (hr : Ends b) : b.dropPrefix? (Bytes.ofString "\nstream\n") = none := by
  cases b with
  | nil => rfl
  | cons c b =>
      have hc : c ≠ 0x0A := by rcases hr.delimiter c rfl with rfl | rfl | rfl <;> decide
      exact if_neg fun h => hc (eq_of_beq h)

/-- The brackets and entries of a dictionary or stream, whatever follows. -/
theorem readObject_keyed {entries : OrderedMap Name (List Token)} {fs : List (Name × Form)}
    (h : List.Forall₂ (ReadableEntry table) entries.entries fs)
    (hb : (writeTokens table (dictionaryTokens entries)).complete = .ok b) :
    ∃ rest, b = 0x3C :: rest ∧
      ∀ {n}, rest.length ≤ n → ∀ r, readObject (n + 1) (0x3C :: (rest ++ r)) = readKeyed ⟨fs⟩ r := by
  obtain ⟨b, hentries, rfl⟩ := complete_bracketed hb
  refine ⟨0x3C :: (b ++ [0x3E, 0x3E]), rfl, fun {n} hn r => ?_⟩
  rw [List.length_cons, List.length_append] at hn
  have hread := (readEntries_spaced h hentries r).1 (n := n) (by omega)
  have hitems : (0x3C :: (0x3C :: (b ++ [0x3E, 0x3E]) ++ r)).dropPrefix? [0x5B] = none := by
    simp [List.dropPrefix?]
  have hkeyed : (0x3C :: (0x3C :: (b ++ [0x3E, 0x3E]) ++ r)).dropPrefix? [0x3C, 0x3C] =
      some (b ++ 0x3E :: 0x3E :: r) := by
    simp [List.dropPrefix?]
  simp only [readObject, hitems, hkeyed, hread, Option.bind_some]

theorem readable_dictionary {entries : OrderedMap Name (List Token)} {fs : List (Name × Form)}
    (h : List.Forall₂ (ReadableEntry table) entries.entries fs) :
    Readable table (dictionaryTokens entries) (.dictionary ⟨fs⟩) := by
  intro b hb
  obtain ⟨rest, rfl, hread⟩ := readObject_keyed h hb
  refine Reads.of_opens (by decide) (by decide) fun {n r} hn hr => ?_
  rw [hread hn, readKeyed, dropPrefix?_stream hr]

theorem forall₂_insertEntry {es : List (Name × List Token)} {fs : List (Name × Form)}
    (h : List.Forall₂ (ReadableEntry table) es fs) {k : Name} {ts : List Token} (hf : Readable table ts f) :
    List.Forall₂ (ReadableEntry table) (OrderedMap.insertEntry k ts es) (OrderedMap.insertEntry k f fs) := by
  induction h with
  | nil => exact .cons ⟨rfl, hf⟩ .nil
  | @cons e g es fs hg hfs ih =>
      obtain ⟨k₁, ts₁⟩ := e
      obtain ⟨k₂, g⟩ := g
      obtain ⟨rfl, hg⟩ := hg
      simp only [OrderedMap.insertEntry]
      split
      · exact .cons ⟨rfl, hf⟩ (.cons ⟨rfl, hg⟩ hfs)
      · exact .cons ⟨rfl, hf⟩ hfs
      · exact .cons ⟨rfl, hg⟩ ih

theorem readPayload_length {entries : OrderedMap Name Form} {data : Bytes}
    (h : entries.get? "Length" = some (.length data)) (r : Bytes) :
    readPayload entries (data ++ (Bytes.ofString "\nendstream" ++ r)) = some (.stream entries data, r) := by
  rw [readPayload, h]
  change (natural? (Bytes.ofString (toString data.length))).bind _ = _
  rw [natural?_toString, Option.bind_some, List.drop_left, List.take_left,
    List.dropPrefix?_append_of_beq _ (beq_self_eq_true _)]
  rfl

theorem readable_length (data : Bytes) : Readable table [.ofString (toString data.length)] (.length data) :=
  readable_text (reads_number (fun b hb => isNumeral_of_isDigit (isDigit_of_mem_toString b hb))
    (toString_ne_nil _))

/-- The payload is taken by the length among the entries, so nothing in it is read. -/
theorem readable_stream {entries : OrderedMap Name (List Token)} {forms : OrderedMap Name Form}
    (h : List.Forall₂ (ReadableEntry table) entries.entries forms.entries) (data : Bytes) :
    Readable table (streamTokens entries data) (.stream (forms.insert "Length" (.length data)) data) := by
  intro b hb
  obtain ⟨b₁, b₂, hb₁, hb₂, rfl⟩ := complete_writeTokens_append.1 hb
  obtain ⟨b₃, hb₃, rfl⟩ := complete_writeTokens_text.1 hb₂
  obtain ⟨b₄, hb₄, rfl⟩ := complete_writeTokens_text.1 hb₃
  obtain ⟨b₅, hb₅, rfl⟩ := complete_writeTokens_text.1 hb₄
  rw [complete_writeTokens_nil.1 hb₅]
  obtain ⟨rest, rfl, hread⟩ := readObject_keyed (forall₂_insertEntry h (readable_length data)) hb₁
  rw [List.cons_append]
  refine Reads.of_opens (by decide) (by decide) fun {n r} hn _ => ?_
  rw [List.length_append] at hn
  rw [List.append_assoc, hread (by omega), readKeyed, List.append_assoc,
    List.dropPrefix?_append_of_beq _ (beq_self_eq_true _), List.append_assoc, List.append_assoc]
  exact readPayload_length (OrderedMap.get?_insert_self forms "Length" (.length data)) r

end Form

/-! ## Objects -/

namespace Object

open Form

mutual

/-- Every object is read back from what is written of it. -/
theorem readable_tokens : (o : Object) → Readable table o.tokens (o.form table)
  | null => readable_text reads_null
  | boolean v => readable_text (reads_boolean v)
  | number n => readable_number n
  | name n => readable_text (reads_name n)
  | string s => readable_string s
  | array items => readable_array (readable_items items)
  | dictionary ⟨entries⟩ => readable_dictionary (readable_entries entries)
  | stream ⟨entries⟩ data =>
      have h : List.Forall₂ (ReadableEntry table) (mapTokens ⟨entries⟩).entries (mapForms table ⟨entries⟩).entries :=
        readable_entries entries
      readable_stream h data
  | indirect r => readable_reference r

theorem readable_items : (items : List Object) →
    List.Forall₂ (Readable table) (itemTokens items) (itemForms table items)
  | [] => .nil
  | o :: rest => .cons (readable_tokens o) (readable_items rest)

theorem readable_entries : (entries : List (Name × Object)) →
    List.Forall₂ (ReadableEntry table) (listTokens entries) (listForms table entries)
  | [] => .nil
  | (_, o) :: rest => .cons ⟨rfl, readable_tokens o⟩ (readable_entries rest)

end

/-- The written form of an object is read back whole, and nothing but the object's form is needed for it. -/
theorem read?_toBytes {o : Object} {b : Bytes} (h : o.toBytes table = .ok b) :
    Form.read? b = some (o.form table) := by
  have hread := (readable_tokens o h).read (Nat.le_refl _) ends_nil
  rw [List.append_nil] at hread
  rw [Form.read?, hread]

/-- Two objects with the same bytes are the same but for what no bytes show: how a number of that text is
held, which of the references with that identity it is, and what a stream's own dictionary says of its
length. -/
theorem form_eq_of_toBytes {o o' : Object} {b : Bytes} (h : o.toBytes table = .ok b)
    (h' : o'.toBytes table = .ok b) : o.form table = o'.form table :=
  Option.some.inj ((read?_toBytes h).symm.trans (read?_toBytes h'))

/-- Two streams that say different things of their length, with the end of a payload as payload. -/
theorem form_eq_of_streams_without_length :
    let data := Bytes.ofString "endstream"
    let o := array [stream ⟨[("Length", null)]⟩ data, indirect ⟨0⟩]
    let o' := array [stream ⟨[("Length", array [])]⟩ data, indirect ⟨1⟩]
    let b := Bytes.ofString "[<</Length 9>>\nstream\nendstream\nendstream 0 65535 R]"
    o.toBytes none = .ok b ∧ o'.toBytes none = .ok b ∧ o.form none = o'.form none := by
  intro data o o' b
  have hbytes : (o.toBytes none).toOption = some b ∧ (o'.toBytes none).toOption = some b := by decide +kernel
  have ok_of_toOption : ∀ {x : Except ObjectError Bytes}, x.toOption = some b → x = .ok b := by
    intro x hx
    cases x with
    | ok b' => exact congrArg Except.ok (Option.some.inj hx)
    | error e => cases hx
  have h := ok_of_toOption hbytes.1
  have h' := ok_of_toOption hbytes.2
  exact ⟨h, h', form_eq_of_toBytes h h'⟩

end Object

end PdfStore
