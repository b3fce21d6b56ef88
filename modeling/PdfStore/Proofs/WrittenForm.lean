import PdfStore.Object.Written

/-!
# When an object can be written

An object is written whole if its reals are finite and its references have identities. It is written
alike under two tables that give its references the same identities.
-/

namespace PdfStore

variable {table table' : Option ReferenceTable} {o : Object} {r : Reference}

/-! ## Sequences of tokens -/

theorem complete_writeTokens_cons {t : Token} {ts : List Token} {b : Bytes} :
    (writeTokens table (t :: ts)).complete = .ok b ↔
      ∃ b₁ b₂, t.bytes table = .ok b₁ ∧ (writeTokens table ts).complete = .ok b₂ ∧ b = b₁ ++ b₂ := by
  rw [writeTokens]
  cases t.bytes table with
  | error e => simp [Written.complete]
  | ok b₁ =>
      simp only [Written.complete]
      cases (writeTokens table ts).failure with
      | some e => simp
      | none => simp [eq_comm]

theorem complete_writeTokens_nil {b : Bytes} : (writeTokens table []).complete = .ok b ↔ b = [] := by
  simp [writeTokens, Written.complete, eq_comm]

theorem complete_writeTokens_append {b : Bytes} {xs ys : List Token} :
    (writeTokens table (xs ++ ys)).complete = .ok b ↔
      ∃ b₁ b₂, (writeTokens table xs).complete = .ok b₁ ∧ (writeTokens table ys).complete = .ok b₂ ∧
        b = b₁ ++ b₂ := by
  induction xs generalizing b with
  | nil => simp [complete_writeTokens_nil]
  | cons t rest ih =>
      simp only [List.cons_append, complete_writeTokens_cons, ih]
      constructor
      · rintro ⟨b₁, b₂, h₁, ⟨b₃, b₄, h₃, h₄, rfl⟩, rfl⟩
        exact ⟨b₁ ++ b₃, b₄, ⟨b₁, b₃, h₁, h₃, rfl⟩, h₄, (List.append_assoc ..).symm⟩
      · rintro ⟨b₁, b₂, ⟨b₃, b₄, h₃, h₄, rfl⟩, h₂, rfl⟩
        exact ⟨b₃, b₄ ++ b₂, h₃, ⟨b₄, b₂, h₄, h₂, rfl⟩, List.append_assoc ..⟩

theorem complete_of_cons_error {t : Token} {ts : List Token} {b : Bytes} {e : ObjectError}
    (hb : t.bytes table = .ok b) (he : (writeTokens table (t :: ts)).complete = .error e) :
    (writeTokens table ts).complete = .error e := by
  rw [writeTokens, hb] at he
  unfold Written.complete at he ⊢
  cases hf : (writeTokens table ts).failure with
  | none =>
      simp only [hf] at he
      cases he
  | some e' =>
      simp only [hf] at he
      exact he

theorem token_of_written {ts : List Token} {b : Bytes} (h : (writeTokens table ts).complete = .ok b) :
    ∀ t ∈ ts, ∃ b₁, t.bytes table = .ok b₁ := by
  induction ts generalizing b with
  | nil => simp
  | cons t ts ih =>
      obtain ⟨b₁, b₂, h₁, h₂, -⟩ := complete_writeTokens_cons.1 h
      intro t' ht'
      rcases List.mem_cons.1 ht' with rfl | ht'
      · exact ⟨b₁, h₁⟩
      · exact ih h₂ t' ht'

theorem written_of_tokens {ts : List Token} (h : ∀ t ∈ ts, ∃ b, t.bytes table = .ok b) :
    ∃ b, (writeTokens table ts).complete = .ok b := by
  induction ts with
  | nil => exact ⟨[], rfl⟩
  | cons t ts ih =>
      obtain ⟨b₁, h₁⟩ := h t List.mem_cons_self
      obtain ⟨b₂, h₂⟩ := ih fun t ht => h t (List.mem_cons_of_mem _ ht)
      exact ⟨b₁ ++ b₂, complete_writeTokens_cons.2 ⟨b₁, b₂, h₁, h₂, rfl⟩⟩

theorem writeTokens_congr {ts : List Token} (h : ∀ t ∈ ts, t.bytes table = t.bytes table') :
    writeTokens table ts = writeTokens table' ts := by
  induction ts with
  | nil => rfl
  | cons t ts ih =>
      rw [writeTokens, writeTokens, h t List.mem_cons_self, ih fun t ht => h t (List.mem_cons_of_mem _ ht)]

/-! ## Lists of tokens with blanks between them -/

theorem spaced_cons_cons (a b : List Token) (rest : List (List Token)) :
    spaced (a :: b :: rest) = a ++ .ofString " " :: spaced (b :: rest) := by
  simp [spaced, List.intercalate]

theorem spaced_cons (a : List Token) (rest : List (List Token)) :
    spaced (a :: rest) = a ++ rest.flatMap (.ofString " " :: ·) := by
  induction rest generalizing a with
  | nil => simp [spaced, List.intercalate]
  | cons b rest ih => rw [spaced_cons_cons, ih, List.flatMap_cons, List.cons_append]

/-- What stands around one of the lists depends on the other lists only. -/
theorem spaced_append_cons (before : List (List Token)) (a : List Token) (after : List (List Token)) :
    spaced (before ++ a :: after) =
      before.flatMap (· ++ [.ofString " "]) ++ a ++ after.flatMap (.ofString " " :: ·) := by
  induction before with
  | nil => exact spaced_cons a after
  | cons b before ih =>
      have hnext : spaced (b :: (before ++ a :: after)) = b ++ .ofString " " :: spaced (before ++ a :: after) := by
        cases before with
        | nil => exact spaced_cons_cons b a after
        | cons b' before => exact spaced_cons_cons b b' (before ++ a :: after)
      rw [List.cons_append, hnext, ih]
      simp

/-! ## What is selected of tokens -/

section Selected

variable {α : Type} {f : Token → Option α} (hf : ∀ b, f (.text b) = none)
include hf

theorem filterMap_ofString (text : String) (ts : List Token) :
    (Token.ofString text :: ts).filterMap f = ts.filterMap f :=
  List.filterMap_cons_none (hf _)

theorem filterMap_spaced (items : List (List Token)) :
    (spaced items).filterMap f = items.flatMap (List.filterMap f) := by
  induction items with
  | nil => rfl
  | cons ts rest ih =>
      cases rest with
      | nil => simp [spaced, List.intercalate]
      | cons ts' rest =>
          rw [spaced_cons_cons, List.filterMap_append, filterMap_ofString hf, ih, ← List.flatMap_cons]

theorem filterMap_arrayTokens (items : List (List Token)) :
    (arrayTokens items).filterMap f = items.flatMap (List.filterMap f) := by
  rw [arrayTokens, List.cons_append, filterMap_ofString hf, List.filterMap_append, filterMap_spaced hf,
    filterMap_ofString hf]
  exact List.append_nil _

theorem filterMap_dictionaryTokens (m : OrderedMap Name (List Token)) :
    (dictionaryTokens m).filterMap f = m.entries.flatMap fun e => e.2.filterMap f := by
  have hentry : ∀ e, (entryTokens e).filterMap f = e.2.filterMap f := fun e => by
    rw [entryTokens, nameToken, List.filterMap_cons_none (hf _), filterMap_ofString hf]
  rw [dictionaryTokens, List.cons_append, filterMap_ofString hf, List.filterMap_append, filterMap_spaced hf,
    filterMap_ofString hf, List.flatMap_map]
  simp only [hentry, List.filterMap_nil, List.append_nil]

theorem filterMap_streamTokens (m : OrderedMap Name (List Token)) (data : Bytes) :
    (streamTokens m data).filterMap f =
      (m.insert "Length" [.ofString (toString data.length)]).entries.flatMap fun e => e.2.filterMap f := by
  have hdata : List.filterMap f [.ofString "\nstream\n", .text data, .ofString "\nendstream"] = [] := by
    rw [filterMap_ofString hf, List.filterMap_cons_none (hf _), filterMap_ofString hf, List.filterMap_nil]
  rw [streamTokens, List.filterMap_append, filterMap_dictionaryTokens hf, hdata, List.append_nil]

end Selected

/-! ## The references that are written -/

theorem mem_spaced {t : Token} {items : List (List Token)} (h : t ∈ spaced items) :
    (∃ l ∈ items, t ∈ l) ∨ t = .ofString " " := by
  obtain ⟨l, hl, ht⟩ := List.mem_flatten.1 h
  induction items with
  | nil => cases hl
  | cons a rest ih =>
      cases rest with
      | nil =>
          rw [List.intersperse_singleton, List.mem_singleton] at hl
          exact Or.inl ⟨a, List.mem_cons_self, hl ▸ ht⟩
      | cons b rest =>
          rw [List.intersperse_cons_cons] at hl
          rcases List.mem_cons.1 hl with rfl | hl
          · exact Or.inl ⟨l, List.mem_cons_self, ht⟩
          · rcases List.mem_cons.1 hl with rfl | hl
            · exact Or.inr (List.mem_singleton.1 ht)
            · rcases ih (List.mem_flatten.2 ⟨l, hl, ht⟩) hl with ⟨l', hl', ht'⟩ | hs
              · exact Or.inl ⟨l', List.mem_cons_of_mem _ hl', ht'⟩
              · exact Or.inr hs

theorem reference_mem_spaced {items : List (List Token)} (h : .reference r ∈ spaced items) :
    ∃ l ∈ items, .reference r ∈ l := by
  rcases mem_spaced h with h | h
  · exact h
  · cases h

theorem reference_mem_dictionaryTokens {m : OrderedMap Name (List Token)}
    (h : .reference r ∈ dictionaryTokens m) : ∃ e ∈ m.entries, .reference r ∈ e.2 := by
  simp only [dictionaryTokens, Token.ofString, List.cons_append, List.mem_cons, reduceCtorEq,
    List.mem_append, List.not_mem_nil, or_false, false_or] at h
  obtain ⟨l, hl, hr⟩ := reference_mem_spaced h
  obtain ⟨e, he, rfl⟩ := List.mem_map.1 hl
  refine ⟨e, he, ?_⟩
  simpa [entryTokens, nameToken, Token.ofString] using hr

namespace Object

mutual

/-- Every reference that is written is one of the object. -/
theorem references_of_tokens : (o : Object) → .reference r ∈ o.tokens → r ∈ o.references
  | null, h => by simp [tokens, Token.ofString] at h
  | boolean _, h => by simp [tokens, Token.ofString] at h
  | number (.integer _), h => by simp [tokens, numberToken, Token.ofString] at h
  | number (.real _), h => by simp [tokens, numberToken] at h
  | name _, h => by simp [tokens, nameToken] at h
  | string ⟨_, .literal⟩, h => by simp [tokens, stringToken] at h
  | string ⟨_, .hex⟩, h => by simp [tokens, stringToken] at h
  | array items, h => by
      simp only [tokens, arrayTokens, Token.ofString, List.cons_append, List.mem_cons, reduceCtorEq,
        List.mem_append, List.not_mem_nil, or_false, false_or] at h
      obtain ⟨l, hl, hr⟩ := reference_mem_spaced h
      exact references_of_itemTokens items l hl hr
  | dictionary ⟨entries⟩, h => by
      obtain ⟨e, he, hr⟩ := reference_mem_dictionaryTokens h
      exact references_of_listTokens entries e he hr
  | stream ⟨entries⟩ data, h => by
      have h : .reference r ∈
          dictionaryTokens ((mapTokens ⟨entries⟩).insert "Length" [.ofString (toString data.length)]) := by
        simpa [tokens, streamTokens, Token.ofString] using h
      obtain ⟨e, he, hr⟩ := reference_mem_dictionaryTokens h
      rcases OrderedMap.mem_insertEntry he with rfl | he
      · simp [Token.ofString] at hr
      · exact references_of_listTokens entries e he hr
  | indirect q, h => by simpa [tokens, references] using h

theorem references_of_itemTokens : (items : List Object) → ∀ l ∈ itemTokens items,
    .reference r ∈ l → r ∈ itemReferences items
  | [], l, hl, _ => by simp [itemTokens] at hl
  | o :: rest, l, hl, hr => by
      rw [itemReferences, List.mem_append]
      rcases List.mem_cons.1 hl with rfl | hl
      · exact Or.inl (references_of_tokens o hr)
      · exact Or.inr (references_of_itemTokens rest l hl hr)

theorem references_of_listTokens : (entries : List (Name × Object)) → ∀ e ∈ listTokens entries,
    .reference r ∈ e.2 → r ∈ entryReferences entries
  | [], e, he, _ => by simp [listTokens] at he
  | (k, o) :: rest, e, he, hr => by
      rw [entryReferences, List.mem_append]
      rcases List.mem_cons.1 he with rfl | he
      · exact Or.inl (references_of_tokens o hr)
      · exact Or.inr (references_of_listTokens rest e he hr)

end

/-! ## Whole objects -/

/-- No real that is written is infinite or no number. -/
def Finite (o : Object) : Prop := ∀ x, .real x ∈ o.tokens → x.isFinite = true

theorem finite_of_toBytes {b : Bytes} (h : o.toBytes table = .ok b) : o.Finite := fun x hx => by
  obtain ⟨b₁, h₁⟩ := token_of_written h _ hx
  cases hf : x.isFinite with
  | true => rfl
  | false => simp [Token.bytes, hf] at h₁

theorem toBytes_of_finite {identity : ReferenceTable} (hf : o.Finite)
    (hr : ∀ r ∈ o.references, (identity r).isSome) : ∃ b, o.toBytes (some identity) = .ok b := by
  refine written_of_tokens fun t ht => ?_
  cases t with
  | text b => exact ⟨b, rfl⟩
  | real x => exact ⟨_, by rw [Token.bytes, if_pos (hf x ht)]⟩
  | reference r =>
      obtain ⟨id, hid⟩ := Option.isSome_iff_exists.1 (hr r (references_of_tokens o ht))
      exact ⟨Bytes.ofString id.token, by simp only [Token.bytes, hid]⟩

/-- What is written depends on the identities of the written references only. -/
theorem toBytes_congr {f g : ReferenceTable} (h : ∀ r ∈ o.references, f r = g r) :
    o.toBytes (some f) = o.toBytes (some g) := by
  refine congrArg Written.complete (writeTokens_congr fun t ht => ?_)
  cases t with
  | reference r => simp only [Token.bytes, h r (references_of_tokens o ht)]
  | _ => rfl

/-- A reference is written as its identity. -/
theorem toBytes_indirect (refs : ReferenceTable) (r : Reference) : (indirect r).toBytes (some refs) =
    match refs r with
    | some id => .ok (Bytes.ofString id.token)
    | none => .error (.unbound r) := by
  cases h : refs r <;> simp [toBytes, write, tokens, writeTokens, Token.bytes, Written.complete, h]

end Object

end PdfStore
