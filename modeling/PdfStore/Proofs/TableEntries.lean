import PdfStore.Proofs.FreeChain

/-!
# The entries in use

What the operations of a table do to the slots in use: a reservation adds one, a release takes one away,
and no operation touches another one.
-/

namespace PdfStore.Table

variable {t u : Table} {chain : List Nat} {id : ObjectId} {n : Nat} {s : Slot}

theorem used?_zero (h : t.Chained chain) : t.used? 0 = none := by
  obtain ⟨head, hs, hf⟩ := h.head
  rw [used?, hs, Option.filter_some, hf]
  rfl

theorem validate_ok_iff_entry (h : t.Chained chain) :
    t.validate id = .ok s ↔ t.used? id.number.toNat = some s ∧ s.generation = id.generation := by
  rw [validate_ok, used?_eq_some]
  refine ⟨fun ⟨hs, _, hu, hg⟩ => ⟨⟨hs, hu⟩, hg⟩, fun ⟨⟨hs, hu⟩, hg⟩ => ⟨hs, fun h₀ => ?_, hu, hg⟩⟩
  have hnone := used?_zero h
  rw [h₀] at hs
  rw [used?, show t.slot? 0 = some s from hs, Option.filter_some, hu] at hnone
  cases hnone

/-- A table in which the entry of one number has changed, while the other entries stay. -/
structure EntryChange (t : Table) (n : Nat) (e : Option Slot) (u : Table) : Prop where
  chained : ∃ chain, u.Chained chain
  limit : u.maxGeneration = t.maxGeneration
  dirty : (∀ s ∈ t.toList, s.dirty) → ∀ s ∈ u.toList, s.dirty
  entry : ∀ m, u.used? m = if m = n then e else t.used? m

/-- The entry of one list of slots after a change. -/
theorem HasSlots.used?_set {slots : List Slot} (h : HasSlots t u (slots.set n s)) (hn : n < slots.length)
    (m : Nat) : u.used? m = if m = n then (some s).filter Slot.inUse else (slots[m]?).filter Slot.inUse := by
  rw [used?, h.slot?_set hn]
  exact apply_ite (Option.filter Slot.inUse) _ _ _

theorem filter_free (h : s.inUse = false) : (some s).filter Slot.inUse = none := by
  rw [Option.filter_some, h]
  rfl

/-- Changing a free slot into another one changes no entry. -/
theorem used?_set_free {slots : List Slot} {s s' : Slot} (hs : slots[n]? = some s) (hf : s.inUse = false)
    (hf' : s'.inUse = false) (m : Nat) :
    ((slots.set n s')[m]?).filter Slot.inUse = (slots[m]?).filter Slot.inUse := by
  rw [List.getElem?_set]
  by_cases hm : n = m
  · subst hm
    rw [if_pos rfl, if_pos (List.getElem?_eq_some_iff.1 hs).1, hs, filter_free hf, filter_free hf']
  · rw [if_neg hm]

theorem dirty_set {slots : List Slot} (hd : ∀ s ∈ slots, s.dirty) (hs : s.dirty) (n : Nat) :
    ∀ s' ∈ slots.set n s, s'.dirty := by
  intro s' hs'
  rcases List.mem_or_eq_of_mem_set hs' with hs' | rfl
  · exact hd s' hs'
  · exact hs

theorem reserve_entry (h : t.Chained chain) :
    (∃ id u, reserve t = .ok id u ∧ t.used? id.number.toNat = none ∧
      EntryChange t id.number.toNat (some (.reserved id.generation)) u) ∨ reserve t = .error .full t := by
  cases hre : t.reusable? with
  | some n =>
      obtain ⟨s, p, sp, u, -, hslot, hfree, -, hsp, hspfree, hpn, hok, hu, hs⟩ :=
        reserve_reused_of_chained h hre
      have hn : (UInt32.ofNat n).toNat = n :=
        UInt32.toNat_ofNat_of_lt' (Nat.lt_of_lt_of_le (lt_size_of_slot? hslot) h.size_le)
      have hlt : n < t.toList.length := by
        rw [length_toList]
        exact lt_size_of_slot? hslot
      refine Or.inl ⟨_, u, hok, ?_, ⟨_, hu⟩, hs.limit, fun hd => ?_, fun m => ?_⟩
      · simp [hn, used?, hslot, hfree]
      · rw [hs.toList_eq]
        exact dirty_set (dirty_set hd rfl _) rfl _
      · rw [slot?_eq_getElem?] at hsp
        have hf' : ({ sp with offset := t.offset n, dirty := true } : Slot).inUse = false := hspfree
        rw [hs.used?_set (by rwa [List.length_set]), hn, used?_set_free hsp hspfree hf', ← slot?_eq_getElem?]
        rfl
  | none =>
      by_cases hsize : t.size ≤ 4294967295
      · obtain ⟨u, hok, hu, hs⟩ := reserve_new_of_chained h hre hsize
        have hn : (UInt32.ofNat t.size).toNat = t.size := UInt32.toNat_ofNat_of_lt' (Nat.lt_succ_of_le hsize)
        have hbeyond : t.slot? t.size = none := by
          rw [slot?_eq_getElem?, List.getElem?_eq_none (Nat.le_of_eq (length_toList t))]
        refine Or.inl ⟨_, u, hok, ?_, ⟨_, hu⟩, hs.limit, fun hd s' hs' => ?_, fun m => ?_⟩
        · simp [hn, used?, hbeyond]
        · rw [hs.toList_eq, List.mem_append, List.mem_singleton] at hs'
          rcases hs' with hs' | rfl
          · exact hd s' hs'
          · rfl
        · rw [used?, slot?_reserve_new hs, hn]
          exact apply_ite (Option.filter Slot.inUse) _ _ _
      · exact Or.inr (reserve_full hre (Nat.lt_of_not_le hsize))

theorem release_entry (h : t.Chained chain) (hv : t.validate id = .ok s) :
    ∃ out u, release id t = .ok out u ∧ EntryChange t id.number.toNat none u := by
  obtain ⟨out, u, head, hok, hhead, hu, hs⟩ := h.release hv
  have hlt : id.number.toNat < t.toList.length := by
    rw [length_toList]
    exact lt_size_of_slot? (validate_ok.1 hv).1
  refine ⟨out, u, hok, ⟨_, hu⟩, hs.limit, fun hd => ?_, fun m => ?_⟩
  · rw [hs.toList_eq]
    exact dirty_set (dirty_set hd rfl _) rfl _
  · obtain ⟨head', hhead', hf⟩ := h.head
    rw [hhead] at hhead'
    cases hhead'
    rw [slot?_eq_getElem?] at hhead
    have hf' : ({ head with offset := id.number.toNat, dirty := true } : Slot).inUse = false := hf
    rw [hs.used?_set (by rwa [List.length_set]), used?_set_free hhead hf hf', ← slot?_eq_getElem?]
    rfl

theorem setOffset_entry (h : t.Chained chain) (hv : t.validate id = .ok s) (o : Nat) :
    ∃ u, setOffset id o t = .ok () u ∧
      EntryChange t id.number.toNat (some { s with offset := o, dirty := true }) u := by
  obtain ⟨u, hok, hu, hs⟩ := h.setOffset hv o
  have hlt : id.number.toNat < t.toList.length := by
    rw [length_toList]
    exact lt_size_of_slot? (validate_ok.1 hv).1
  refine ⟨u, hok, ⟨_, hu⟩, hs.limit, fun hd => ?_, fun m => ?_⟩
  · rw [hs.toList_eq]
    exact dirty_set hd rfl _
  · rw [hs.used?_set hlt, ← slot?_eq_getElem?]
    refine if_congr Iff.rfl ?_ rfl
    rw [Option.filter_some, if_pos (validate_ok.1 hv).2.2.1]

end PdfStore.Table
