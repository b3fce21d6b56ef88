import Mathlib.Data.List.Perm.Subperm
import PdfStore.Proofs.TableSlots

/-!
# The free chain

The free slots of a table are linked from slot zero through their offsets, the one released last in
front. The offset of a slot in use is a place in the output, so the chain must never run into one.
-/

namespace PdfStore.Table

/-- The chain that goes on after slot `p` consists of the slots `l`; the last of them ends it. -/
def Linked (next : Nat → Nat) : Nat → List Nat → Prop
  | p, [] => next p = 0
  | p, n :: l => next p = n ∧ n ≠ 0 ∧ Linked next n l

theorem Linked.from {next next' : Nat → Nat} {p q : Nat} {l : List Nat} (h : Linked next p l)
    (hq : next' q = next p) (hl : ∀ m ∈ l, next' m = next m) : Linked next' q l := by
  induction l generalizing p q with
  | nil => exact hq.trans h
  | cons n l ih =>
      obtain ⟨hn, h₀, h⟩ := h
      exact ⟨hq.trans hn, h₀, ih h (hl n (by simp)) fun m hm => hl m (by simp [hm])⟩

variable {t u : Table} {chain : List Nat} {id : ObjectId} {n : Nat} {s : Slot}

theorem chainFrom_of_linked {p k : Nat} {l : List Nat} (h : Linked t.offset p l) (hk : l.length ≤ k) :
    t.chainFrom k (t.offset p) = l := by
  induction l generalizing p k with
  | nil =>
      rw [show t.offset p = 0 from h]
      cases k <;> simp [chainFrom]
  | cons n l ih =>
      obtain ⟨hn, h₀, h⟩ := h
      cases k with
      | zero => simp at hk
      | succ k =>
          rw [hn, chainFrom, if_neg h₀, ih h (by simpa using hk)]

/-- A slot of the chain is found, and leading past it takes it out. -/
theorem predecessor?_of_linked {p k : Nat} {l : List Nat} (h : Linked t.offset p l) (hd : (p :: l).Nodup)
    (hn : n ∈ l) (hk : l.length ≤ k) :
    ∃ q, t.predecessor? n k p = some q ∧ q ∈ p :: l ∧ q ≠ n ∧
      ∀ next : Nat → Nat, next q = t.offset n → (∀ m ∈ p :: l, m ≠ q → m ≠ n → next m = t.offset m) →
        Linked next p (l.erase n) := by
  induction l generalizing p k with
  | nil => cases hn
  | cons m l ih =>
      obtain ⟨hm, h₀, h⟩ := h
      obtain ⟨hp, hd⟩ := List.nodup_cons.1 hd
      cases k with
      | zero => simp at hk
      | succ k =>
          by_cases hmn : m = n
          · subst hmn
            have hpm : p ≠ m := fun e => hp (e ▸ List.mem_cons_self)
            refine ⟨p, by simp [predecessor?, hm, h₀], List.mem_cons_self, hpm, fun next hnext hsame => ?_⟩
            rw [List.erase_cons_head]
            refine h.from hnext fun a ha => hsame a (by simp [ha]) ?_ ?_
            · exact fun e => hp (e ▸ List.mem_cons_of_mem m ha)
            · exact fun e => (List.nodup_cons.1 hd).1 (e ▸ ha)
          · have hnl : n ∈ l := (List.mem_cons.1 hn).resolve_left (Ne.symm hmn)
            obtain ⟨q, hq, hql, hqn, herase⟩ := ih h hd hnl (by simpa using hk)
            refine ⟨q, by simp [predecessor?, hm, h₀, hmn, hq], List.mem_cons_of_mem p hql, hqn,
              fun next hnext hsame => ?_⟩
            rw [List.erase_cons_tail (by simpa using hmn)]
            refine ⟨?_, h₀, herase next hnext fun a ha => hsame a (List.mem_cons_of_mem p ha)⟩
            rw [hsame p List.mem_cons_self (fun e => hp (e ▸ hql)) (fun e => hp (e ▸ hn)), hm]

/-! ## The invariant -/

/-- A slot that the table holds and that is not in use. -/
def Free (t : Table) (n : Nat) : Prop := ∃ s, t.slot? n = some s ∧ s.inUse = false

/-- The slots of `chain` are those that are free, slot zero apart, and they are linked in this order. -/
structure Chained (t : Table) (chain : List Nat) : Prop where
  clean : t.slots.Clean
  size_le : t.size ≤ 4294967296
  head : t.Free 0
  linked : Linked t.offset 0 chain
  nodup : chain.Nodup
  mem_iff : ∀ n, n ∈ chain ↔ n ≠ 0 ∧ t.Free n

namespace Chained

theorem zero_not_mem (h : t.Chained chain) : 0 ∉ chain := fun h₀ => ((h.mem_iff 0).1 h₀).1 rfl

/-- The bound on the length of the chain does not cut it short. -/
theorem length_le (h : t.Chained chain) : chain.length ≤ t.size := by
  have hsub : chain ⊆ List.range t.size := fun n hn => by
    obtain ⟨-, s, hs, -⟩ := (h.mem_iff n).1 hn
    exact List.mem_range.2 (lt_size_of_slot? hs)
  simpa using (List.subperm_of_subset h.nodup hsub).length_le

theorem freeChain_eq (h : t.Chained chain) : t.freeChain = chain :=
  chainFrom_of_linked h.linked h.length_le

theorem not_mem_of_validate (h : t.Chained chain) (hv : t.validate id = .ok s) :
    id.number.toNat ∉ chain := fun hn => by
  obtain ⟨-, s', hs', hfree⟩ := (h.mem_iff _).1 hn
  obtain ⟨hs, -, huse, -⟩ := validate_ok.1 hv
  rw [hs] at hs'
  cases hs'
  rw [huse] at hfree
  cases hfree

end Chained

/-! ## Each operation keeps it -/

theorem chained_ofCluster {cluster : Nat} (hc : 2 ≤ cluster) (limit : UInt16) :
    ∃ t, ofCluster cluster limit = .ok t ∧ t.maxGeneration = limit ∧ t.Chained [] ∧
      t.toList = [⟨0, limit, false, true⟩] := by
  obtain ⟨t, hok, hclean, hlimit, hlist⟩ := ofCluster_ok hc limit
  have hslot : ∀ n, t.slot? n = [(⟨0, limit, false, true⟩ : Slot)][n]? := fun n => by
    rw [slot?_eq_getElem?, hlist]
  refine ⟨t, hok, hlimit, ⟨hclean, ?_, ⟨_, hslot 0, rfl⟩, ?_, List.nodup_nil, fun n => ?_⟩, hlist⟩
  · rw [← length_toList, hlist]
    exact Nat.le_of_ble_eq_true rfl
  · change t.offset 0 = 0
    simp [offset, hslot]
  · refine ⟨fun hn => absurd hn List.not_mem_nil, fun ⟨h₀, s, hs, _⟩ => ?_⟩
    rw [hslot] at hs
    cases n with
    | zero => exact absurd rfl h₀
    | succ n => simp at hs

/-- A table in which only a slot in use has changed keeps its chain. -/
theorem Chained.of_used (h : t.Chained chain) (hu : u.slots.Clean) (hsize : u.size = t.size)
    (hn : n ∉ chain) (h₀ : n ≠ 0) (huse : ¬ t.Free n) (huse' : ¬ u.Free n)
    (hsame : ∀ m, m ≠ n → u.slot? m = t.slot? m) : u.Chained chain := by
  have hfree : ∀ m, u.Free m ↔ t.Free m := fun m => by
    by_cases hm : m = n
    · subst hm
      exact ⟨fun hf => absurd hf huse', fun hf => absurd hf huse⟩
    · simp only [Free, hsame m hm]
  have hoff : ∀ m, m ≠ n → u.offset m = t.offset m := fun m hm => by simp only [offset, hsame m hm]
  refine ⟨hu, hsize ▸ h.size_le, (hfree 0).2 h.head, ?_, h.nodup, fun m => by rw [h.mem_iff, hfree]⟩
  exact h.linked.from (hoff 0 (Ne.symm h₀)) fun m hm => hoff m fun e => hn (e ▸ hm)

theorem Chained.setOffset (h : t.Chained chain) (hv : t.validate id = .ok s) (o : Nat) :
    ∃ u, Table.setOffset id o t = .ok () u ∧ u.Chained chain ∧
      HasSlots t u (t.toList.set id.number.toNat { s with offset := o, dirty := true }) := by
  obtain ⟨u, hok, hs⟩ := setOffset_ok h.clean hv o
  obtain ⟨hslot, h₀, huse, -⟩ := validate_ok.1 hv
  have hn : id.number.toNat < t.toList.length := by
    rw [length_toList]
    exact lt_size_of_slot? hslot
  refine ⟨u, hok, h.of_used hs.clean ?_ (h.not_mem_of_validate hv) ?_ ?_ ?_ fun m hm => ?_, hs⟩
  · rw [hs.size_eq, List.length_set, length_toList]
  · exact fun e => h₀ (UInt32.toNat_inj.1 e)
  · rintro ⟨s', hs', hf⟩
    rw [hslot] at hs'
    cases hs'
    rw [huse] at hf
    cases hf
  · rintro ⟨s', hs', hf⟩
    rw [hs.slot?_set hn, if_pos rfl] at hs'
    cases hs'
    rw [huse] at hf
    cases hf
  · rw [hs.slot?_set hn, if_neg hm, slot?_eq_getElem?]

/-- A released slot becomes the first of the chain. -/
theorem Chained.release (h : t.Chained chain) (hv : t.validate id = .ok s) :
    ∃ out u head, Table.release id t = .ok out u ∧ t.slot? 0 = some head ∧
      u.Chained (id.number.toNat :: chain) ∧
      HasSlots t u ((t.toList.set 0 { head with offset := id.number.toNat, dirty := true }).set id.number.toNat
        ⟨head.offset, t.nextGeneration id.generation, false, true⟩) := by
  obtain ⟨head, hhead, hfree₀⟩ := h.head
  obtain ⟨u, hok, hs⟩ := release_ok h.clean hv hhead
  obtain ⟨hslot, hne, huse, -⟩ := validate_ok.1 hv
  have h₀ : id.number.toNat ≠ 0 := fun e => hne (UInt32.toNat_inj.1 e)
  have hlt : id.number.toNat < t.toList.length := by
    rw [length_toList]
    exact lt_size_of_slot? hslot
  have hget : ∀ m, u.slot? m = if m = id.number.toNat then
      some ⟨head.offset, t.nextGeneration id.generation, false, true⟩
      else if m = 0 then some { head with offset := id.number.toNat, dirty := true } else t.slot? m := fun m => by
    rw [hs.slot?_set (by rwa [List.length_set]), List.getElem?_set, slot?_eq_getElem?]
    by_cases hm : m = 0
    · subst hm
      simp [h₀.symm, Nat.lt_of_le_of_lt (Nat.zero_le _) hlt]
    · simp [hm, Ne.symm hm]
  have hoff : ∀ m ∈ chain, u.offset m = t.offset m := fun m hm => by
    have hm₁ : m ≠ id.number.toNat := fun e => h.not_mem_of_validate hv (e ▸ hm)
    have hm₀ : m ≠ 0 := fun e => h.zero_not_mem (e ▸ hm)
    simp only [offset, hget, if_neg hm₁, if_neg hm₀]
  refine ⟨_, u, head, hok, hhead, ⟨hs.clean, ?_, ⟨{ head with offset := id.number.toNat, dirty := true },
    by rw [hget, if_neg h₀.symm, if_pos rfl], hfree₀⟩, ?_, List.nodup_cons.2 ⟨h.not_mem_of_validate hv, h.nodup⟩, fun m => ?_⟩, hs⟩
  · rw [hs.size_eq, List.length_set, List.length_set, length_toList]
    exact h.size_le
  · refine ⟨?_, h₀, h.linked.from ?_ hoff⟩
    · simp [offset, hget, h₀.symm]
    · simp [offset, hget, hhead]
  · rw [List.mem_cons, h.mem_iff]
    by_cases hm : m = id.number.toNat
    · simp [hm, h₀, Free, hget]
    · by_cases hm₀ : m = 0
      · simp [hm₀, h₀.symm]
      · simp only [hm, hm₀, Free, hget, ↓reduceIte, false_or]

theorem reserve_reused_of_chained (h : t.Chained chain) (hr : t.reusable? = some n) :
    ∃ s p sp u, n ∈ chain ∧ t.slot? n = some s ∧ s.inUse = false ∧ t.predecessor? n t.size 0 = some p ∧
      t.slot? p = some sp ∧ sp.inUse = false ∧ p ≠ n ∧
      reserve t = .ok ⟨UInt32.ofNat n, s.generation⟩ u ∧ u.Chained (chain.erase n) ∧
      HasSlots t u ((t.toList.set p { sp with offset := t.offset n, dirty := true }).set n
        (.reserved s.generation)) := by
  obtain ⟨hn₀, s, hslot, hfree, -⟩ := reusable?_some hr
  have hn : n ∈ chain := (h.mem_iff n).2 ⟨Nat.ne_of_gt hn₀, s, hslot, hfree⟩
  obtain ⟨p, hp, hpmem, hpn, herase⟩ := predecessor?_of_linked h.linked
    (List.nodup_cons.2 ⟨h.zero_not_mem, h.nodup⟩) hn h.length_le
  have hpfree : t.Free p := by
    rcases List.mem_cons.1 hpmem with rfl | hpc
    · exact h.head
    · exact ((h.mem_iff p).1 hpc).2
  obtain ⟨sp, hsp, hspfree⟩ := hpfree
  obtain ⟨u, hok, hs⟩ := reserve_reused h.clean hr hslot hp hsp hpn
  have hnlt : n < t.toList.length := by
    rw [length_toList]
    exact lt_size_of_slot? hslot
  have hplt : p < t.toList.length := by
    rw [length_toList]
    exact lt_size_of_slot? hsp
  have hget : ∀ m, u.slot? m = if m = n then some (.reserved s.generation)
      else if m = p then some { sp with offset := t.offset n, dirty := true } else t.slot? m := fun m => by
    rw [hs.slot?_set (by rwa [List.length_set]), List.getElem?_set, slot?_eq_getElem?]
    by_cases hm : m = p
    · subst hm
      simp [hplt]
    · simp [hm, Ne.symm hm]
  have hfree_iff : ∀ m, u.Free m ↔ m ≠ n ∧ t.Free m := fun m => by
    by_cases hmn : m = n
    · simp [hmn, Free, hget, Slot.reserved]
    · by_cases hmp : m = p
      · subst hmp
        simp [hpn, Free, hget, hsp, hspfree]
      · simp [hmn, hmp, Free, hget]
  refine ⟨s, p, sp, u, hn, hslot, hfree, hp, hsp, hspfree, hpn, hok, ⟨hs.clean, ?_,
    (hfree_iff 0).2 ⟨Nat.ne_of_lt hn₀, h.head⟩, ?_, h.nodup.erase n, fun m => ?_⟩, hs⟩
  · rw [hs.size_eq, List.length_set, List.length_set, length_toList]
    exact h.size_le
  · refine herase u.offset ?_ fun m hm hmp hmn => ?_
    · simp [offset, hget, hpn]
    · simp only [offset, hget, if_neg hmn, if_neg hmp]
  · rw [h.nodup.mem_erase_iff, h.mem_iff, hfree_iff]
    exact and_left_comm

/-- A new slot behind all others changes none of them. -/
theorem slot?_reserve_new (hs : HasSlots t u (t.toList ++ [.reserved 0])) (m : Nat) :
    u.slot? m = if m = t.size then some (.reserved 0) else t.slot? m := by
  rw [hs.slot?_eq, List.getElem?_append, length_toList, ← slot?_eq_getElem?]
  rcases Nat.lt_trichotomy m t.size with hlt | rfl | hgt
  · rw [if_pos hlt, if_neg (by omega)]
  · simp
  · rw [if_neg (by omega), if_neg (by omega), slot?_eq_getElem?,
      List.getElem?_eq_none (by rw [List.length_singleton]; omega),
      List.getElem?_eq_none (by rw [length_toList]; omega)]

theorem reserve_new_of_chained (h : t.Chained chain) (hr : t.reusable? = none)
    (hsize : t.size ≤ 4294967295) :
    ∃ u, reserve t = .ok ⟨UInt32.ofNat t.size, 0⟩ u ∧ u.Chained chain ∧
      HasSlots t u (t.toList ++ [.reserved 0]) := by
  obtain ⟨u, hok, hs⟩ := reserve_new h.clean hr hsize
  have hget := slot?_reserve_new hs
  have hbeyond : t.slot? t.size = none := by
    rw [slot?_eq_getElem?, List.getElem?_eq_none (Nat.le_of_eq (length_toList t))]
  have hfree : ∀ m, u.Free m ↔ t.Free m := fun m => by
    by_cases hm : m = t.size
    · simp [hm, Free, hget, hbeyond, Slot.reserved]
    · simp only [Free, hget, if_neg hm]
  have hoff : u.offset = t.offset := funext fun m => by
    by_cases hm : m = t.size
    · simp [offset, hm, hget, hbeyond, Slot.reserved]
    · simp only [offset, hget, if_neg hm]
  refine ⟨u, hok, ⟨hs.clean, ?_, (hfree 0).2 h.head, hoff ▸ h.linked, h.nodup,
    fun m => by rw [h.mem_iff, hfree]⟩, hs⟩
  rw [hs.size_eq, List.length_append, length_toList]
  exact Nat.succ_le_succ hsize

/-! ## Runs -/

/-- The numbers of the slots that have been released, the latest first. -/
def releases (log : Log) : List Nat :=
  log.filterMap fun e =>
    match e.call, e.outcome with
    | .release id, .ok _ => some id.number.toNat
    | _, _ => none

/-- The chain in the order of the releases: a slot stands before all that have been released earlier. -/
structure Recent (log : Log) (chain : List Nat) : Prop where
  mem : ∀ n ∈ chain, n ∈ releases log
  order : chain.Pairwise fun m n => (releases log).idxOf m < (releases log).idxOf n

theorem Recent.sublist {log : Log} {l : List Nat} (h : Recent log chain) (hl : l.Sublist chain) :
    Recent log l :=
  ⟨fun n hn => h.mem n (hl.mem hn), h.order.sublist hl⟩

theorem Recent.congr {log log' : Log} (h : Recent log chain) (hl : releases log' = releases log) :
    Recent log' chain :=
  ⟨fun n hn => hl ▸ h.mem n hn, hl ▸ h.order⟩

theorem Recent.release {log log' : Log} (h : Recent log chain) (hn : n ∉ chain)
    (hl : releases log' = n :: releases log) : Recent log' (n :: chain) := by
  have hne : ∀ m ∈ chain, n ≠ m := fun m hm e => hn (e ▸ hm)
  refine ⟨fun m hm => ?_, List.pairwise_cons.2 ⟨fun m hm => ?_, ?_⟩⟩
  · rw [hl]
    rcases List.mem_cons.1 hm with rfl | hm
    · exact List.mem_cons_self
    · exact List.mem_cons_of_mem n (h.mem m hm)
  · rw [hl, List.idxOf_cons_self, List.idxOf_cons_ne _ (hne m hm)]
    exact Nat.succ_pos _
  · refine h.order.imp_of_mem fun {a b} ha hb hab => ?_
    rw [hl, List.idxOf_cons_ne _ (hne a ha), List.idxOf_cons_ne _ (hne b hb)]
    exact Nat.succ_lt_succ hab

theorem releases_cons_of_ne {log : Log} {e : Event Call TableError Table Answer}
    (h : ∀ id, e.call ≠ .release id) : releases (e :: log) = releases log := by
  obtain ⟨before, call, outcome, after⟩ := e
  cases call with
  | release id => exact absurd rfl (h id)
  | reserve => rfl
  | setOffset id o => rfl

/-- What one call does to the chain: a release puts its slot in front, and a reservation takes one out. -/
theorem chained_call {log : Log} (h : t.Chained chain) (hr : Recent log chain) (k : Call) :
    ∃ chain', ((perform k).next t).Chained chain' ∧ Recent (.ofCall perform k t :: log) chain' := by
  cases k with
  | reserve =>
      have hlog : releases (.ofCall perform .reserve t :: log) = releases log :=
        releases_cons_of_ne (by simp [Event.ofCall])
      rw [next_perform_reserve]
      cases hre : t.reusable? with
      | some n =>
          obtain ⟨s, p, sp, u, -, -, -, -, -, -, -, hok, hu, -⟩ := reserve_reused_of_chained h hre
          rw [Operation.next_ok hok]
          exact ⟨chain.erase n, hu, (hr.sublist List.erase_sublist).congr hlog⟩
      | none =>
          refine ⟨chain, ?_, hr.congr hlog⟩
          by_cases hsize : t.size ≤ 4294967295
          · obtain ⟨u, hok, hu, -⟩ := reserve_new_of_chained h hre hsize
            rwa [Operation.next_ok hok]
          · rwa [Operation.next_error (reserve_full hre (Nat.lt_of_not_le hsize))]
  | release id =>
      have hout := outcome_perform_release id t
      rw [next_perform_release]
      cases hv : t.validate id with
      | ok s =>
          obtain ⟨out, u, head, hok, -, hu, -⟩ := h.release hv
          rw [Operation.outcome_ok hok] at hout
          rw [Operation.next_ok hok]
          refine ⟨_, hu, hr.release (h.not_mem_of_validate hv) ?_⟩
          simp [releases, Event.ofCall, hout, Except.map]
      | error e =>
          have herr := release_error hv
          rw [Operation.outcome_error herr] at hout
          rw [Operation.next_error herr]
          refine ⟨chain, h, hr.congr ?_⟩
          simp [releases, Event.ofCall, hout, Except.map]
  | setOffset id o =>
      refine ⟨chain, ?_, hr.congr (releases_cons_of_ne (by simp [Event.ofCall]))⟩
      rw [next_perform_setOffset]
      cases hv : t.validate id with
      | ok s =>
          obtain ⟨u, hok, hu, -⟩ := h.setOffset hv o
          rwa [Operation.next_ok hok]
      | error e => rwa [Operation.next_error (setOffset_error hv o)]

theorem chained_run {log : Log} (h₀ : t.Chained []) (h : Runs perform t log u) :
    ∃ chain, u.Chained chain ∧ Recent log chain := by
  induction h with
  | none => exact ⟨[], h₀, by simp, List.Pairwise.nil⟩
  | call _ k ih =>
      obtain ⟨chain, hc, hr⟩ := ih
      exact chained_call hc hr k

/-- Taking a slot out of the chain when it is given out again. -/
theorem freeChain_reserve (h : t.Chained chain) (hok : reserve t = .ok id u)
    (hlt : id.number.toNat < t.size) :
    (∃ p, t.predecessor? id.number.toNat t.size 0 = some p) ∧ id.number.toNat ∈ t.freeChain ∧
      u.freeChain = t.freeChain.erase id.number.toNat := by
  cases hre : t.reusable? with
  | some n =>
      obtain ⟨s, p, sp, v, hn, hslot, -, hp, -, -, -, hok', hv, -⟩ := reserve_reused_of_chained h hre
      rw [hok] at hok'
      cases hok'
      have hsize : n < 4294967296 := Nat.lt_of_lt_of_le (lt_size_of_slot? hslot) h.size_le
      simp only [UInt32.toNat_ofNat_of_lt' hsize]
      exact ⟨⟨p, hp⟩, h.freeChain_eq ▸ hn, by rw [h.freeChain_eq, hv.freeChain_eq]⟩
  | none =>
      by_cases hsize : t.size ≤ 4294967295
      · obtain ⟨v, hok', -, -⟩ := reserve_new_of_chained h hre hsize
        rw [hok] at hok'
        cases hok'
        rw [UInt32.toNat_ofNat_of_lt' (Nat.lt_succ_of_le hsize)] at hlt
        exact absurd hlt (Nat.lt_irrefl _)
      · rw [reserve_full hre (Nat.lt_of_not_le hsize)] at hok
        cases hok

/-- After any calls, the chain from slot zero ends and holds the slots that are not in use, each once and
the one released last in front; what the table lists is all of it. A slot that is given out again is
found on the chain, which loses it and nothing else. -/
theorem freeChain_of_run {cluster : Nat} (hc : 2 ≤ cluster) (limit : UInt16) :
    ∃ t₀, ofCluster cluster limit = .ok t₀ ∧ ∀ (log : Log) (t : Table), Runs perform t₀ log t →
      Linked t.offset 0 t.freeChain ∧ t.freeChain.Nodup ∧
      (∀ n, n ∈ t.freeChain ↔ 1 ≤ n ∧ n < t.size ∧ ∃ s, t.slot? n = some s ∧ s.inUse = false) ∧
      Recent log t.freeChain ∧
      ∀ id u, reserve t = .ok id u → id.number.toNat < t.size →
        (∃ p, t.predecessor? id.number.toNat t.size 0 = some p) ∧ id.number.toNat ∈ t.freeChain ∧
          u.freeChain = t.freeChain.erase id.number.toNat := by
  obtain ⟨t₀, h₀, -, hchained, -⟩ := chained_ofCluster hc limit
  refine ⟨t₀, h₀, fun log t hrun => ?_⟩
  obtain ⟨chain, h, hr⟩ := chained_run hchained hrun
  have heq := h.freeChain_eq
  refine ⟨heq.symm ▸ h.linked, heq.symm ▸ h.nodup, fun n => ?_, heq.symm ▸ hr,
    fun id u hok hlt => freeChain_reserve h hok hlt⟩
  rw [heq, h.mem_iff, Nat.one_le_iff_ne_zero]
  exact and_congr_right fun _ =>
    ⟨fun ⟨s, hs, hf⟩ => ⟨lt_size_of_slot? hs, s, hs, hf⟩, fun ⟨_, hf⟩ => hf⟩

theorem freeChain_of_two_releases : 2 ≤ 2 ∧ ∃ (t₀ : Table) (log : Log) (t : Table),
    ofCluster 2 2 = .ok t₀ ∧ Runs perform t₀ log t ∧
      log.map Event.call = [.release ⟨3, 0⟩, .setOffset ⟨2, 0⟩ 1, .release ⟨1, 0⟩, .reserve, .reserve,
        .reserve] ∧ t.freeChain = [3, 1] ∧ Linked t.offset 0 [3, 1] := by
  obtain ⟨t₀, h₀, h⟩ := freeChain_of_run (Nat.le_refl 2) 2
  let calls : List Call := [.reserve, .reserve, .reserve, .release ⟨1, 0⟩, .setOffset ⟨2, 0⟩ 1,
    .release ⟨3, 0⟩]
  have hrun := runs_events perform calls t₀
  have hchain : (ofCluster 2 2).toOption.map (fun t => (Operation.after perform calls t).freeChain) =
      some [3, 1] := by
    decide +kernel
  rw [h₀] at hchain
  have hfree : (Operation.after perform calls t₀).freeChain = [3, 1] := Option.some.inj hchain
  -- What the calls lead to is not to be computed again.
  generalize Operation.after perform calls t₀ = t at hrun hfree
  obtain ⟨hlinked, -⟩ := h _ _ hrun
  rw [hfree] at hlinked
  exact ⟨by decide, t₀, _, t, h₀, hrun, Operation.map_call_events perform calls t₀, hfree, hlinked⟩

end PdfStore.Table
