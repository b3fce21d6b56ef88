import PdfStore.OrderedMap

/-!
# Ordered maps

What is found after a removal, and how the list of pairs relates to what is found. An ordered map lists a
key at most once; without that a removal could bring an older value back. It is determined by what it finds. Where a
pair goes in is a matter of the keys alone, whatever the values are.
-/

namespace PdfStore.OrderedMap

variable {κ α : Type} [Ord κ] [Std.LawfulEqOrd κ]

omit [Std.LawfulEqOrd κ] in
theorem lookupEntry_none_of_lt [Std.TransOrd κ] {k : κ} {l : List (κ × α)}
    (h : ∀ e ∈ l, compare k e.1 = .lt) : lookupEntry k l = none := by
  induction l with
  | nil => rfl
  | cons e rest ih =>
      have he := h e List.mem_cons_self
      rw [lookupEntry, if_neg (by simp [he])]
      exact ih fun e he => h e (List.mem_cons_of_mem _ he)

theorem get?_erase_self [Std.TransOrd κ] {m : OrderedMap κ α} (h : m.Ascending) (k : κ) :
    (m.erase k).get? k = none := by
  obtain ⟨l⟩ := m
  simp only [Ascending, erase, get?] at h ⊢
  induction l with
  | nil => rfl
  | cons e rest ih =>
      obtain ⟨h₁, h₂⟩ := List.pairwise_cons.1 h
      unfold eraseEntry
      split
      · rename_i heq
        rw [Std.compare_eq_iff_eq] at heq
        subst heq
        exact lookupEntry_none_of_lt h₁
      · rename_i hne
        rw [lookupEntry, if_neg hne]
        exact ih h₂

omit [Std.LawfulEqOrd κ] in
theorem erase_of_get?_none {m : OrderedMap κ α} {k : κ} (h : m.get? k = none) : m.erase k = m := by
  obtain ⟨l⟩ := m
  refine congrArg OrderedMap.mk ?_
  simp only [get?] at h
  induction l with
  | nil => rfl
  | cons e rest ih =>
      rw [lookupEntry] at h
      split at h
      · cases h
      · rename_i hne
        rw [eraseEntry, if_neg hne, ih h]

theorem get?_erase_of_ne (m : OrderedMap κ α) {k k' : κ} (hne : k' ≠ k) :
    (m.erase k).get? k' = m.get? k' := by
  obtain ⟨l⟩ := m
  simp only [erase, get?]
  induction l with
  | nil => rfl
  | cons e rest ih =>
      unfold eraseEntry
      split
      · rename_i heq
        rw [Std.compare_eq_iff_eq] at heq
        rw [lookupEntry, if_neg (by rw [Std.compare_eq_iff_eq]; exact fun e => hne (e.trans heq.symm))]
      · simp only [lookupEntry, ih]

/-- A pair of the list is what is found under its key. -/
theorem mem_entries_iff [Std.TransOrd κ] {m : OrderedMap κ α} (h : m.Ascending) {k : κ} {v : α} :
    (k, v) ∈ m.entries ↔ m.get? k = some v := by
  obtain ⟨l⟩ := m
  simp only [Ascending, get?] at h ⊢
  induction l with
  | nil => simp [lookupEntry]
  | cons e rest ih =>
      obtain ⟨h₁, h₂⟩ := List.pairwise_cons.1 h
      rw [List.mem_cons, ih h₂, lookupEntry]
      split
      · rename_i heq
        rw [Std.compare_eq_iff_eq] at heq
        subst heq
        rw [lookupEntry_none_of_lt h₁]
        simp [Prod.ext_iff, eq_comm]
      · rename_i hne
        rw [Std.compare_eq_iff_eq] at hne
        exact ⟨fun hr => hr.resolve_left fun e => hne (congrArg Prod.fst e), Or.inr⟩

/-! ## A map is what it finds -/

theorem eq_of_get?_eq [Std.TransOrd κ] {m m' : OrderedMap κ α} (h : m.Ascending) (h' : m'.Ascending)
    (hget : ∀ k, m.get? k = m'.get? k) : m = m' := by
  have hnodup : ∀ {m : OrderedMap κ α}, m.Ascending → m.entries.Nodup := fun h =>
    h.imp fun hlt heq => by simp [heq] at hlt
  have hmem : ∀ e, e ∈ m.entries ↔ e ∈ m'.entries := fun (k, v) => by
    rw [mem_entries_iff h, mem_entries_iff h', hget]
  have hperm := (List.perm_ext_iff_of_nodup (hnodup h) (hnodup h')).2 hmem
  have hentries : m.entries = m'.entries := by
    refine List.Perm.eq_of_pairwise (fun _ _ _ _ hlt hgt => ?_) h h' hperm
    exact absurd hgt (Std.OrientedCmp.not_lt_of_lt hlt)
  cases m
  cases m'
  exact congrArg mk hentries

omit [Std.LawfulEqOrd κ] in
theorem ascending_mapValues {β : Type} {m : OrderedMap κ α} (h : m.Ascending) (f : α → β) :
    (m.mapValues f).Ascending :=
  List.pairwise_map.2 h

omit [Std.LawfulEqOrd κ] in
theorem get?_mapValues {β : Type} (m : OrderedMap κ α) (f : α → β) (k : κ) :
    (m.mapValues f).get? k = (m.get? k).map f := by
  obtain ⟨l⟩ := m
  simp only [mapValues, get?]
  induction l with
  | nil => rfl
  | cons e rest ih =>
      simp only [List.map_cons, lookupEntry, ih]
      split <;> rfl

omit [Ord κ] [Std.LawfulEqOrd κ] in
theorem mapValues_mapValues {β γ : Type} (m : OrderedMap κ α) (f : α → β) (g : β → γ) :
    (m.mapValues f).mapValues g = m.mapValues fun v => g (f v) :=
  congrArg mk List.map_map

/-- Of several pairs with one key the last one counts. -/
theorem get?_ofList [BEq κ] [LawfulBEq κ] (entries : List (κ × α)) (k : κ) :
    (ofList entries).get? k = entries.reverse.lookup k := by
  have hfold : ∀ (l : List (κ × α)) (m : OrderedMap κ α),
      (l.foldl (fun m e => m.insert e.1 e.2) m).get? k = (l.reverse.lookup k).or (m.get? k) := by
    intro l
    induction l with
    | nil => exact fun m => rfl
    | cons e rest ih =>
        intro m
        obtain ⟨k', v'⟩ := e
        rw [List.foldl_cons, ih, List.reverse_cons, List.lookup_append, Option.or_assoc]
        by_cases hk : k = k'
        · subst hk
          rw [get?_insert_self, List.lookup_cons_self]
          rfl
        · rw [get?_insert_of_ne m hk, List.lookup_cons, beq_false_of_ne hk]
          rfl
  exact (hfold entries empty).trans (Option.or_none)

/-! ## Where a pair goes in -/

omit [Std.LawfulEqOrd κ] in
theorem mapValues_insert {β : Type} (f : α → β) (m : OrderedMap κ α) (k : κ) (v : α) :
    (m.insert k v).mapValues f = (m.mapValues f).insert k (f v) := by
  obtain ⟨l⟩ := m
  simp only [insert, mapValues, mk.injEq]
  induction l with
  | nil => rfl
  | cons e rest ih =>
      obtain ⟨k', v'⟩ := e
      simp only [List.map_cons, insertEntry]
      cases compare k k' with
      | lt => rfl
      | eq => rfl
      | gt => simp only [List.map_cons, ih]

omit [Std.LawfulEqOrd κ] in
/-- A pair that stood there before the insertion of another one may hold any value. -/
theorem insertEntry_append_cons {k key : κ} {v a : α} {l before after : List (κ × α)}
    (h : insertEntry k v l = before ++ (key, a) :: after) (hne : a ≠ v) :
    ∃ l₁ l₂, l = l₁ ++ (key, a) :: l₂ ∧
      ∀ b, insertEntry k v (l₁ ++ (key, b) :: l₂) = before ++ (key, b) :: after := by
  induction l generalizing before with
  | nil =>
      have hmem : (key, a) ∈ [(k, v)] := by
        rw [insertEntry] at h
        exact h ▸ List.mem_append_right _ List.mem_cons_self
      exact absurd (congrArg Prod.snd (List.mem_singleton.1 hmem)) hne
  | cons e rest ih =>
      obtain ⟨k', v'⟩ := e
      have hnew {l' : List (κ × α)} (h : (k, v) :: l' = before ++ (key, a) :: after) :
          ∃ before', before = (k, v) :: before' ∧ l' = before' ++ (key, a) :: after := by
        rcases List.cons_eq_append_iff.1 h with ⟨-, heq⟩ | ⟨before', hb, hl⟩
        · exact absurd (congrArg Prod.snd (List.cons.inj heq).1) hne
        · exact ⟨before', hb, hl⟩
      cases hk : compare k k' with
      | lt =>
          simp only [insertEntry, hk] at h
          obtain ⟨before', rfl, hl⟩ := hnew h
          refine ⟨before', after, hl, fun b => ?_⟩
          cases before' with
          | nil =>
              obtain ⟨heq, rfl⟩ := List.cons.inj hl
              cases heq
              simp only [List.nil_append, insertEntry, hk, List.cons_append]
          | cons e before' =>
              obtain ⟨rfl, -⟩ := List.cons.inj hl
              simp only [List.cons_append, insertEntry, hk]
      | eq =>
          simp only [insertEntry, hk] at h
          obtain ⟨before', rfl, rfl⟩ := hnew h
          refine ⟨(k', v') :: before', after, rfl, fun b => ?_⟩
          simp only [List.cons_append, insertEntry, hk]
      | gt =>
          simp only [insertEntry, hk] at h
          rcases List.cons_eq_append_iff.1 h with ⟨rfl, heq⟩ | ⟨before', rfl, hl⟩
          · obtain ⟨heq, rfl⟩ := List.cons.inj heq
            cases heq
            refine ⟨[], rest, rfl, fun b => ?_⟩
            simp only [List.nil_append, insertEntry, hk]
          · obtain ⟨l₁, l₂, rfl, hall⟩ := ih hl
            refine ⟨(k', v') :: l₁, l₂, rfl, fun b => ?_⟩
            simp only [List.cons_append, insertEntry, hk, hall b]

end PdfStore.OrderedMap
