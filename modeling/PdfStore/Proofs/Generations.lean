import PdfStore.Proofs.TableEntries

/-!
# Generations

No identity is given out twice. A slot comes back only at a larger generation than every identity that
has been given out under its number, so an identity that has been taken back stays invalid for ever.
-/

namespace PdfStore

/-- Whether a slot is in use, and its generation. -/
def Slot.phase (s : Slot) : Bool × UInt16 := (s.inUse, s.generation)

namespace Table

variable {t u : Table} {chain : List Nat} {id id' : ObjectId} {n : Nat} {s : Slot}

/-! ## Phases of slots -/

def phase? (t : Table) (n : Nat) : Option (Bool × UInt16) := (t.slot? n).map Slot.phase

theorem phase?_of_slot? (h : t.slot? n = some s) : t.phase? n = some s.phase := by
  rw [phase?, h, Option.map_some]

theorem phase?_eq_some {used : Bool} {g : UInt16} :
    t.phase? n = some (used, g) ↔ ∃ s, t.slot? n = some s ∧ s.inUse = used ∧ s.generation = g := by
  simp [phase?, Slot.phase]

theorem validate_iff_phase (h : t.Chained chain) :
    (∃ s, t.validate id = .ok s) ↔ t.phase? id.number.toNat = some (true, id.generation) := by
  rw [phase?_eq_some]
  constructor
  · rintro ⟨s, hs⟩
    obtain ⟨hslot, -, hu, hg⟩ := validate_ok.1 hs
    exact ⟨s, hslot, hu, hg⟩
  · rintro ⟨s, hslot, hu, hg⟩
    refine ⟨s, validate_ok.2 ⟨hslot, fun h₀ => ?_, hu, hg⟩⟩
    obtain ⟨head, hhead, hf⟩ := h.head
    rw [h₀] at hslot
    rw [show t.slot? 0 = some s from hslot] at hhead
    cases hhead
    rw [hu] at hf
    cases hf

/-- A table in which the slot of one number has come into a phase, while the others stay in theirs. -/
structure PhaseChange (t : Table) (n : Nat) (used : Bool) (g : UInt16) (u : Table) : Prop where
  chained : ∃ chain, u.Chained chain
  limit : u.maxGeneration = t.maxGeneration
  phase : ∀ m, u.phase? m = if m = n then some (used, g) else t.phase? m

/-- The phases of one list of slots after a change. -/
theorem HasSlots.phase?_set {slots : List Slot} (h : HasSlots t u (slots.set n s)) (hn : n < slots.length)
    (m : Nat) : u.phase? m = if m = n then some s.phase else (slots[m]?).map Slot.phase := by
  rw [phase?, h.slot?_set hn]
  exact apply_ite (Option.map Slot.phase) _ _ _

/-- The offset of a slot is no part of its phase. -/
theorem phase_set_offset {slots : List Slot} (hs : slots[n]? = some s) (o m : Nat) :
    ((slots.set n { s with offset := o, dirty := true })[m]?).map Slot.phase =
      (slots[m]?).map Slot.phase := by
  rw [List.getElem?_set]
  by_cases hm : n = m
  · subst hm
    rw [if_pos rfl, if_pos (List.getElem?_eq_some_iff.1 hs).1, hs]
    rfl
  · rw [if_neg hm]

/-! ## What the operations do to the phases -/

/-- No slot has the number yet, or a free one that is not retired has it at this generation. -/
def Available (t : Table) (id : ObjectId) : Prop :=
  t.phase? id.number.toNat = none ∨
    t.phase? id.number.toNat = some (false, id.generation) ∧ id.generation < t.maxGeneration

theorem reserve_phase (h : t.Chained chain) :
    (∃ id u, reserve t = .ok id u ∧ t.Available id ∧ PhaseChange t id.number.toNat true id.generation u) ∨
      reserve t = .error .full t := by
  cases hre : t.reusable? with
  | some n =>
      obtain ⟨s, p, sp, u, -, hslot, hfree, -, hsp, -, -, hok, hu, hs⟩ := reserve_reused_of_chained h hre
      obtain ⟨-, s', hs', -, hlimit⟩ := reusable?_some hre
      rw [hslot] at hs'
      cases hs'
      have hn : (UInt32.ofNat n).toNat = n :=
        UInt32.toNat_ofNat_of_lt' (Nat.lt_of_lt_of_le (lt_size_of_slot? hslot) h.size_le)
      have hlt : n < t.toList.length := by
        rw [length_toList]
        exact lt_size_of_slot? hslot
      refine Or.inl ⟨_, u, hok, Or.inr ⟨?_, hlimit⟩, ⟨_, hu⟩, hs.limit, fun m => ?_⟩
      · rw [hn, phase?_of_slot? hslot, Slot.phase, hfree]
      · rw [slot?_eq_getElem?] at hsp
        rw [hs.phase?_set (by rwa [List.length_set]), hn, phase_set_offset hsp, ← slot?_eq_getElem?]
        rfl
  | none =>
      by_cases hsize : t.size ≤ 4294967295
      · obtain ⟨u, hok, hu, hs⟩ := reserve_new_of_chained h hre hsize
        have hn : (UInt32.ofNat t.size).toNat = t.size := UInt32.toNat_ofNat_of_lt' (Nat.lt_succ_of_le hsize)
        refine Or.inl ⟨_, u, hok, Or.inl ?_, ⟨_, hu⟩, hs.limit, fun m => ?_⟩
        · rw [hn, phase?, slot?_eq_getElem?, List.getElem?_eq_none (Nat.le_of_eq (length_toList t))]
          rfl
        · rw [phase?, slot?_reserve_new hs, hn]
          exact apply_ite (Option.map Slot.phase) _ _ _
      · exact Or.inr (reserve_full hre (Nat.lt_of_not_le hsize))

theorem release_phase (h : t.Chained chain) (hv : t.validate id = .ok s) :
    ∃ out u, release id t = .ok out u ∧
      PhaseChange t id.number.toNat false (t.nextGeneration id.generation) u := by
  obtain ⟨out, u, head, hok, hhead, hu, hs⟩ := h.release hv
  have hlt : id.number.toNat < t.toList.length := by
    rw [length_toList]
    exact lt_size_of_slot? (validate_ok.1 hv).1
  refine ⟨out, u, hok, ⟨_, hu⟩, hs.limit, fun m => ?_⟩
  rw [slot?_eq_getElem?] at hhead
  rw [hs.phase?_set (by rwa [List.length_set]), phase_set_offset hhead, ← slot?_eq_getElem?]
  rfl

theorem setOffset_phase (h : t.Chained chain) (hv : t.validate id = .ok s) (o : Nat) :
    ∃ u, setOffset id o t = .ok () u ∧ PhaseChange t id.number.toNat true id.generation u := by
  obtain ⟨u, hok, hu, hs⟩ := h.setOffset hv o
  obtain ⟨hslot, -, huse, hg⟩ := validate_ok.1 hv
  have hlt : id.number.toNat < t.toList.length := by
    rw [length_toList]
    exact lt_size_of_slot? hslot
  refine ⟨u, hok, ⟨_, hu⟩, hs.limit, fun m => ?_⟩
  rw [hs.phase?_set hlt, ← slot?_eq_getElem?, Slot.phase, huse, hg]
  rfl

/-! ## The identities that have been given out -/

/-- An identity that is not given out any more: its slot is at a larger generation, or is in use at that
of the identity itself, or is retired. -/
def Past (t : Table) (id : ObjectId) : Prop :=
  (∃ g, t.phase? id.number.toNat = some (true, g) ∧ id.generation ≤ g) ∨
    ∃ g, t.phase? id.number.toNat = some (false, g) ∧ (id.generation < g ∨ t.maxGeneration ≤ g)

/-- Of the identities that have been given out none comes back, and those that are held are the ones whose
slot is in use at their generation. -/
structure Ledger (t : Table) (given held : List ObjectId) : Prop where
  nodup : given.Nodup
  past : ∀ id ∈ given, t.Past id
  held_iff : ∀ id, id ∈ held ↔ t.phase? id.number.toNat = some (true, id.generation)

variable {given held : List ObjectId}

theorem Past.of_phase (h : t.Past id) (hlimit : u.maxGeneration = t.maxGeneration)
    (hphase : u.phase? id.number.toNat = t.phase? id.number.toNat) : u.Past id := by
  rw [Past, hlimit, hphase]
  exact h

theorem Past.lt_of_available (h : t.Past id') (ha : t.Available id) (hn : id'.number = id.number) :
    id'.generation < id.generation := by
  rw [Past, hn] at h
  rcases ha with hnone | ⟨hfree, hlt⟩
  · rcases h with ⟨g, hg, -⟩ | ⟨g, hg, -⟩
    · rw [hnone] at hg
      cases hg
    · rw [hnone] at hg
      cases hg
  · rcases h with ⟨g, hg, -⟩ | ⟨g, hg, hpast⟩
    · rw [hfree] at hg
      cases hg
    · rw [hfree] at hg
      cases hg
      exact hpast.resolve_right (UInt16.not_le.2 hlt)

/-- The generation of a slot grows by one at its release, up to the largest one. -/
theorem toNat_nextGeneration (t : Table) (g : UInt16) :
    (t.nextGeneration g).toNat = min (g.toNat + 1) t.maxGeneration.toNat := by
  rw [nextGeneration]
  split
  · rename_i hlt
    have hlt := UInt16.lt_iff_toNat_lt.1 hlt
    have := t.maxGeneration.toNat_lt
    have hadd : (g + 1).toNat = g.toNat + 1 := by
      rw [UInt16.toNat_add]
      exact Nat.mod_eq_of_lt (by simp only [UInt16.toNat_one]; omega)
    omega
  · rename_i hlt
    rw [UInt16.lt_iff_toNat_lt] at hlt
    omega

/-- A slot that is released has a larger generation afterwards, or is retired. -/
theorem lt_nextGeneration {g g' : UInt16} (h : g' ≤ g) :
    g' < t.nextGeneration g ∨ t.maxGeneration ≤ t.nextGeneration g := by
  have hnext := t.toNat_nextGeneration g
  rw [UInt16.le_iff_toNat_le] at h
  rw [UInt16.lt_iff_toNat_lt, UInt16.le_iff_toNat_le]
  omega

theorem eq_of_number (hn : id'.number = id.number) (hg : id'.generation = id.generation) : id' = id := by
  cases id
  cases id'
  cases hn
  cases hg
  rfl

theorem PhaseChange.phase_of_ne {used : Bool} {g : UInt16} (h : PhaseChange t id.number.toNat used g u)
    (hn : id'.number ≠ id.number) : u.phase? id'.number.toNat = t.phase? id'.number.toNat := by
  rw [h.phase, if_neg fun e => hn (UInt32.toNat_inj.1 e)]

theorem PhaseChange.phase_self {used : Bool} {g : UInt16} (h : PhaseChange t id.number.toNat used g u)
    (hn : id'.number = id.number) : u.phase? id'.number.toNat = some (used, g) := by
  rw [h.phase, if_pos (congrArg UInt32.toNat hn)]

/-- A slot that is in its new phase already. -/
theorem PhaseChange.phase_eq {used : Bool} {g : UInt16} (h : PhaseChange t n used g u)
    (hn : t.phase? n = some (used, g)) (m : Nat) : u.phase? m = t.phase? m := by
  rw [h.phase]
  split
  · rename_i hm
    rw [hm, hn]
  · rfl

theorem PhaseChange.past_self (hu : PhaseChange t id.number.toNat true id.generation u) : u.Past id :=
  Or.inl ⟨_, hu.phase_self rfl, UInt16.le_refl _⟩

theorem Past.reserve (h : t.Past id') (ha : t.Available id)
    (hu : PhaseChange t id.number.toNat true id.generation u) : u.Past id' := by
  by_cases hn : id'.number = id.number
  · exact Or.inl ⟨_, hu.phase_self hn, UInt16.le_of_lt (h.lt_of_available ha hn)⟩
  · exact h.of_phase hu.limit (hu.phase_of_ne hn)

theorem Past.release (h : t.Past id') (hid : t.phase? id.number.toNat = some (true, id.generation))
    (hu : PhaseChange t id.number.toNat false (t.nextGeneration id.generation) u) : u.Past id' := by
  by_cases hn : id'.number = id.number
  · refine Or.inr ⟨_, hu.phase_self hn, ?_⟩
    rw [Past, hn, hid] at h
    rcases h with ⟨g, hg, hle⟩ | ⟨g, hg, -⟩
    · cases hg
      rw [hu.limit]
      exact lt_nextGeneration hle
    · cases hg
  · exact h.of_phase hu.limit (hu.phase_of_ne hn)

namespace Ledger

theorem not_given (h : Ledger t given held) (ha : t.Available id) : id ∉ given := fun hid =>
  UInt16.lt_irrefl _ ((h.past id hid).lt_of_available ha rfl)

theorem reserve (h : Ledger t given held) (ha : t.Available id)
    (hu : PhaseChange t id.number.toNat true id.generation u) : Ledger u (id :: given) (id :: held) where
  nodup := List.nodup_cons.2 ⟨h.not_given ha, h.nodup⟩
  past := List.forall_mem_cons.2 ⟨hu.past_self, fun id' hid' => (h.past id' hid').reserve ha hu⟩
  held_iff := fun id' => by
    rw [List.mem_cons, h.held_iff]
    by_cases hn : id'.number = id.number
    · have hfree : t.phase? id'.number.toNat ≠ some (true, id'.generation) := fun hp => by
        rw [hn] at hp
        rcases ha with hnone | ⟨hfree, -⟩
        · rw [hnone] at hp
          cases hp
        · rw [hfree] at hp
          cases hp
      rw [hu.phase_self hn]
      constructor
      · rintro (rfl | hp)
        · rfl
        · exact absurd hp hfree
      · intro hp
        have hg : id.generation = id'.generation := by injection hp with hp; injection hp
        exact Or.inl (eq_of_number hn hg.symm)
    · rw [hu.phase_of_ne hn]
      exact ⟨fun hp => hp.resolve_left fun e => hn (e ▸ rfl), Or.inr⟩

theorem release (h : Ledger t given held) (hid : t.phase? id.number.toNat = some (true, id.generation))
    (hu : PhaseChange t id.number.toNat false (t.nextGeneration id.generation) u) :
    Ledger u given (held.filter (some id ≠ some ·)) where
  nodup := h.nodup
  past := fun id' hid' => (h.past id' hid').release hid hu
  held_iff := fun id' => by
    rw [List.mem_filter, h.held_iff]
    by_cases hn : id'.number = id.number
    · rw [hu.phase_self hn, hn, hid]
      constructor
      · rintro ⟨hp, hne⟩
        have hg : id.generation = id'.generation := by injection hp with hp; injection hp
        simp [eq_of_number hn hg.symm] at hne
      · rintro ⟨⟩
    · rw [hu.phase_of_ne hn]
      have hne : id ≠ id' := fun e => hn (e ▸ rfl)
      simp [hne]

theorem of_phase (h : Ledger t given held) (hlimit : u.maxGeneration = t.maxGeneration)
    (hphase : ∀ n, u.phase? n = t.phase? n) : Ledger u given held where
  nodup := h.nodup
  past := fun id hid => (h.past id hid).of_phase hlimit (hphase _)
  held_iff := fun id => by rw [h.held_iff, hphase]

theorem setOffset (h : Ledger t given held) (hid : t.phase? id.number.toNat = some (true, id.generation))
    (hu : PhaseChange t id.number.toNat true id.generation u) : Ledger u given held :=
  h.of_phase hu.limit (hu.phase_eq hid)

end Ledger

/-! ## Runs -/

/-- The identity that a call gives out. -/
def reserved? (e : Event Call TableError Table Answer) : Option ObjectId :=
  match e.call, e.outcome with
  | .reserve, .ok (.identity id) => some id
  | _, _ => none

/-- The identity that a call takes back. -/
def released? (e : Event Call TableError Table Answer) : Option ObjectId :=
  match e.call, e.outcome with
  | .release id, .ok _ => some id
  | _, _ => none

/-- All identities that have been given out, the latest first. -/
def issued (log : Log) : List ObjectId := givenOut reserved? log

/-- The identities that have been given out and not taken back since. -/
def outstanding (log : Log) : List ObjectId := stillOut reserved? released? log

/-- Where a call neither gives out nor takes back an identity, the books stay as they are. -/
theorem ledger_quiet {log : Log} {e : Event Call TableError Table Answer}
    (h : Ledger u (issued log) (outstanding log)) (hr : reserved? e = none) (hl : released? e = none) :
    Ledger u (issued (e :: log)) (outstanding (e :: log)) := by
  rw [issued, givenOut_cons, outstanding, stillOut_cons_of_kept _ _ hl, hr]
  exact h

theorem ledger_call {log : Log} (hc : t.Chained chain) (h : Ledger t (issued log) (outstanding log)) (k : Call) :
    (∃ chain', ((perform k).next t).Chained chain') ∧
      Ledger ((perform k).next t) (issued (.ofCall perform k t :: log))
        (outstanding (.ofCall perform k t :: log)) := by
  cases k with
  | reserve =>
      have hout := outcome_perform_reserve t
      rw [next_perform_reserve]
      rcases reserve_phase hc with ⟨id, u, hok, ha, hu⟩ | herr
      · rw [Operation.outcome_ok hok] at hout
        rw [Operation.next_ok hok]
        refine ⟨hu.chained, ?_⟩
        have hr : reserved? (.ofCall perform .reserve t) = some id := by
          simp [reserved?, Event.ofCall, hout, Except.map]
        rw [issued, givenOut_cons, outstanding, stillOut_cons_of_kept _ _ rfl, hr]
        exact h.reserve ha hu
      · rw [Operation.outcome_error herr] at hout
        rw [Operation.next_error herr]
        refine ⟨⟨chain, hc⟩, ledger_quiet h ?_ rfl⟩
        simp [reserved?, Event.ofCall, hout, Except.map]
  | release id =>
      have hout := outcome_perform_release id t
      rw [next_perform_release]
      cases hv : t.validate id with
      | ok s =>
          obtain ⟨out, u, hok, hu⟩ := release_phase hc hv
          rw [Operation.outcome_ok hok] at hout
          rw [Operation.next_ok hok]
          refine ⟨hu.chained, ?_⟩
          have hl : released? (.ofCall perform (.release id) t) = some id := by
            simp [released?, Event.ofCall, hout, Except.map]
          have hr : reserved? (.ofCall perform (.release id) t) = none := rfl
          rw [issued, givenOut_cons, outstanding, stillOut, hr, hl]
          exact h.release ((validate_iff_phase hc).1 ⟨s, hv⟩) hu
      | error e =>
          have herr := release_error hv
          rw [Operation.outcome_error herr] at hout
          rw [Operation.next_error herr]
          refine ⟨⟨chain, hc⟩, ledger_quiet h rfl ?_⟩
          simp [released?, Event.ofCall, hout, Except.map]
  | setOffset id o =>
      rw [next_perform_setOffset]
      cases hv : t.validate id with
      | ok s =>
          obtain ⟨u, hok, hu⟩ := setOffset_phase hc hv o
          rw [Operation.next_ok hok]
          exact ⟨hu.chained, ledger_quiet (h.setOffset ((validate_iff_phase hc).1 ⟨s, hv⟩) hu) rfl rfl⟩
      | error e =>
          rw [Operation.next_error (setOffset_error hv o)]
          exact ⟨⟨chain, hc⟩, ledger_quiet h rfl rfl⟩

theorem ledger_first (hl : t.toList = [⟨0, t.maxGeneration, false, true⟩]) : Ledger t [] [] where
  nodup := List.nodup_nil
  past := fun _ hid => absurd hid List.not_mem_nil
  held_iff := fun id => by
    rw [phase?_eq_some]
    constructor
    · exact fun hid => absurd hid List.not_mem_nil
    · rintro ⟨s, hs, hu, -⟩
      rw [slot?_eq_getElem?, hl] at hs
      obtain rfl := List.mem_singleton.1 (List.mem_of_getElem? hs)
      cases hu

theorem ledger_run {log : Log} (hc : t.Chained chain) (h₀ : Ledger t [] []) (h : Runs perform t log u) :
    (∃ chain', u.Chained chain') ∧ Ledger u (issued log) (outstanding log) := by
  induction h with
  | none => exact ⟨⟨chain, hc⟩, h₀⟩
  | call _ k ih =>
      obtain ⟨⟨chain', hc'⟩, hl⟩ := ih
      exact ledger_call hc' hl k

/-! ## Lists of identities -/

theorem mem_identities (h : t.Chained chain) {p : Slot → Bool} :
    id ∈ t.identities p ↔
      ∃ s, t.slot? id.number.toNat = some s ∧ p s = true ∧ s.generation = id.generation := by
  rw [identities, List.mem_filterMap]
  constructor
  · rintro ⟨⟨s, n⟩, hmem, hs⟩
    rw [List.mem_zipIdx_iff_getElem?, ← slot?_eq_getElem?] at hmem
    simp only [Option.ite_none_right_eq_some, Option.some.injEq] at hs
    obtain ⟨hp, rfl⟩ := hs
    have hn : (UInt32.ofNat n).toNat = n :=
      UInt32.toNat_ofNat_of_lt' (Nat.lt_of_lt_of_le (lt_size_of_slot? hmem) h.size_le)
    exact ⟨s, by rwa [hn], hp, rfl⟩
  · rintro ⟨s, hs, hp, hg⟩
    refine ⟨(s, id.number.toNat), ?_, ?_⟩
    · rw [List.mem_zipIdx_iff_getElem?, ← slot?_eq_getElem?]
      exact hs
    · simp [hp, hg]

theorem pairwise_identities (h : t.Chained chain) (p : Slot → Bool) :
    (t.identities p).Pairwise fun a b => a.number < b.number := by
  have hindex : t.toList.zipIdx.Pairwise fun a b => a.2 < b.2 := by
    rw [← List.pairwise_map, List.zipIdx_map_snd]
    exact List.pairwise_lt_range'
  refine List.pairwise_filterMap.2 (hindex.imp_of_mem fun {a b} ha hb hlt id hid id' hid' => ?_)
  have hsmall : ∀ {e : Slot × Nat}, e ∈ t.toList.zipIdx → e.2 < 4294967296 := fun {e} he => by
    rw [List.mem_zipIdx_iff_getElem?, ← slot?_eq_getElem?] at he
    exact Nat.lt_of_lt_of_le (lt_size_of_slot? he) h.size_le
  simp only [Option.ite_none_right_eq_some, Option.some.injEq] at hid hid'
  rw [← hid.2, ← hid'.2, UInt32.lt_iff_toNat_lt, UInt32.toNat_ofNat_of_lt' (hsmall ha),
    UInt32.toNat_ofNat_of_lt' (hsmall hb)]
  exact hlt

theorem mem_live (h : t.Chained chain) :
    id ∈ t.live ↔ t.phase? id.number.toNat = some (true, id.generation) := by
  rw [live, mem_identities h, phase?_eq_some]

/-! ## Which identities are valid -/

/-- The error for an identity that is not valid tells whether its slot is in use. -/
theorem validate_error (h : t.Chained chain)
    (hid : t.phase? id.number.toNat ≠ some (true, id.generation)) :
    (id.number = 0 ∨ t.size ≤ id.number.toNat ∨ t.Free id.number.toNat) ∧
        t.validate id = .error (.notReserved id) ∨
      id.number ≠ 0 ∧ ∃ s, t.used? id.number.toNat = some s ∧ s.generation ≠ id.generation ∧
        t.validate id = .error (.stale id s.generation) := by
  cases hs : t.slot? id.number.toNat with
  | none =>
      have hbeyond : t.size ≤ id.number.toNat := by
        rw [slot?_eq_getElem?, List.getElem?_eq_none_iff, length_toList] at hs
        exact hs
      exact Or.inl ⟨Or.inr (Or.inl hbeyond), by simp [validate, hs]⟩
  | some s =>
      cases hu : s.inUse with
      | false => exact Or.inl ⟨Or.inr (Or.inr ⟨s, hs, hu⟩), by simp [validate, hs, hu]⟩
      | true =>
          have hg : s.generation ≠ id.generation := fun hg =>
            hid (phase?_eq_some.2 ⟨s, hs, hu, hg⟩)
          have h₀ : id.number ≠ 0 := fun h₀ => by
            have hused := used?_eq_some.2 ⟨hs, hu⟩
            rw [h₀, show (0 : UInt32).toNat = 0 from rfl, used?_zero h] at hused
            cases hused
          exact Or.inr ⟨h₀, s, used?_eq_some.2 ⟨hs, hu⟩, hg, by simp [validate, hs, hu, h₀, hg]⟩

/-- After any calls, the identities that have been given out are all different. Those among them that have
not been taken back since are valid, and are the ones that the table lists, in the order of their numbers;
any other is refused, as stale if its slot is in use at another generation, and else as not reserved. -/
theorem validate_of_run {cluster : Nat} (hc : 2 ≤ cluster) (limit : UInt16) :
    ∃ t₀, ofCluster cluster limit = .ok t₀ ∧ ∀ (log : Log) (t : Table), Runs perform t₀ log t →
      (issued log).Nodup ∧
      (∀ id, id ∈ outstanding log ∧ (∃ s, t.validate id = .ok s) ∨
        id ∉ outstanding log ∧ ((id.number = 0 ∨ t.size ≤ id.number.toNat ∨ t.Free id.number.toNat) ∧
            t.validate id = .error (.notReserved id) ∨
          id.number ≠ 0 ∧ ∃ s, t.used? id.number.toNat = some s ∧ s.generation ≠ id.generation ∧
            t.validate id = .error (.stale id s.generation))) ∧
      t.live.Pairwise (fun a b => a.number < b.number) ∧ ∀ id, id ∈ t.live ↔ id ∈ outstanding log := by
  obtain ⟨t₀, h₀, hlimit, hchained, hlist⟩ := chained_ofCluster hc limit
  refine ⟨t₀, h₀, fun log t hrun => ?_⟩
  obtain ⟨⟨chain, h⟩, hledger⟩ := ledger_run hchained (ledger_first (hlimit ▸ hlist)) hrun
  refine ⟨hledger.nodup, fun id => ?_, pairwise_identities h _, fun id => ?_⟩
  · rw [hledger.held_iff]
    by_cases hid : t.phase? id.number.toNat = some (true, id.generation)
    · exact Or.inl ⟨hid, (validate_iff_phase h).2 hid⟩
    · exact Or.inr ⟨hid, validate_error h hid⟩
  · rw [mem_live h, hledger.held_iff]

/-- A slot that is given out a second time: the first identity is stale, and taking it back again fails. -/
theorem validate_of_second_generation : 2 ≤ 2 ∧ ∃ (t₀ : Table) (log : Log) (t : Table),
    ofCluster 2 2 = .ok t₀ ∧ Runs perform t₀ log t ∧
      log.map Event.call = [.release ⟨1, 0⟩, .setOffset ⟨1, 1⟩ 9, .reserve, .reserve, .release ⟨1, 0⟩,
        .reserve] ∧
      issued log = [⟨2, 0⟩, ⟨1, 1⟩, ⟨1, 0⟩] ∧ outstanding log = [⟨2, 0⟩, ⟨1, 1⟩] ∧ (issued log).Nodup ∧
      (∃ s, t.validate ⟨1, 1⟩ = .ok s) ∧ t.validate ⟨1, 0⟩ = .error (.stale ⟨1, 0⟩ 1) := by
  obtain ⟨t₀, h₀, h⟩ := validate_of_run (Nat.le_refl 2) 2
  let calls : List Call := [.reserve, .release ⟨1, 0⟩, .reserve, .reserve, .setOffset ⟨1, 1⟩ 9,
    .release ⟨1, 0⟩]
  have hrun := runs_events perform calls t₀
  have hbooks : (ofCluster 2 2).toOption.map (fun t => (issued (Operation.events perform calls t),
      outstanding (Operation.events perform calls t), (Operation.after perform calls t).phase? 1)) =
      some ([⟨2, 0⟩, ⟨1, 1⟩, ⟨1, 0⟩], [⟨2, 0⟩, ⟨1, 1⟩], some (true, 1)) := by
    decide +kernel
  rw [h₀] at hbooks
  injection hbooks with hbooks
  injection hbooks with hissued hbooks
  injection hbooks with hheld hphase
  have hcalls := Operation.map_call_events perform calls t₀
  -- What the calls lead to is not to be computed again.
  generalize Operation.after perform calls t₀ = t at hrun hphase
  generalize Operation.events perform calls t₀ = log at hrun hissued hheld hcalls
  obtain ⟨hnodup, hvalid, -⟩ := h _ _ hrun
  refine ⟨by decide, t₀, log, t, h₀, hrun, hcalls, hissued, hheld, hnodup, ?_, ?_⟩
  · rcases hvalid ⟨1, 1⟩ with ⟨-, hok⟩ | ⟨hno, -⟩
    · exact hok
    · rw [hheld] at hno
      exact absurd (by decide) hno
  · obtain ⟨s, hs, hu, hg⟩ := phase?_eq_some.1 hphase
    rcases hvalid ⟨1, 0⟩ with ⟨hheld', -⟩ | ⟨-, ⟨hcond, -⟩ | ⟨-, s', hs', -, herr⟩⟩
    · rw [hheld] at hheld'
      exact absurd hheld' (by decide)
    · rcases hcond with h₀ | hbeyond | ⟨s', hs', hf⟩
      · exact absurd h₀ (by decide)
      · exact absurd (lt_size_of_slot? hs) (Nat.not_lt.2 hbeyond)
      · rw [show t.slot? 1 = some s' from hs'] at hs
        cases hs
        rw [hu] at hf
        cases hf
    · rw [show t.slot? 1 = some s' from (used?_eq_some.1 hs').1] at hs
      cases hs
      rw [← hg]
      exact herr

end Table

end PdfStore
