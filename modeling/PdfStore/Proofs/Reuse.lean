import Mathlib.Order.Bounds.Basic
import PdfStore.Proofs.Generations

/-!
# The reuse of slots

How often a slot has been released tells its generation, which stops at the largest one. So the releases of
a run decide which slot is given out next, and at which generation, and which slots never come back.
-/

namespace PdfStore

/-- What becomes of a slot at its release, by the number of its releases with this one. -/
def Release.ofCount (limit : UInt16) (count : Nat) : Release :=
  if count < limit.toNat then .recycled (UInt16.ofNat count) else .retired

namespace Table

variable {t u : Table} {chain : List Nat} {log : Log} {id : ObjectId} {n : Nat} {g : UInt16}
  {limit : UInt16} {count count' : Nat → Nat}

/-! ## The slots that can come back -/

/-- A free slot that is not retired. -/
def Reusable (t : Table) (n : Nat) : Prop := 1 ≤ n ∧ ∃ g, t.phase? n = some (false, g) ∧ g < t.maxGeneration

/-- The slot that comes back is the one of the lowest number. -/
theorem isLeast_of_reusable? (h : t.reusable? = some n) : IsLeast {n | t.Reusable n} n := by
  obtain ⟨hpos, s, hs, hfree, hlt⟩ := reusable?_some h
  refine ⟨⟨hpos, _, phase?_eq_some.2 ⟨s, hs, hfree, rfl⟩, hlt⟩, fun m ⟨hm, g, hphase, hg⟩ => ?_⟩
  obtain ⟨s', hs', hfree', rfl⟩ := phase?_eq_some.1 hphase
  have hbelow := (List.find?_range'_eq_some.1 h).2.2 m hm
  simpa [hs', hfree', hg] using hbelow

theorem not_reusable (h : t.reusable? = none) (n : Nat) : ¬ t.Reusable n := by
  rintro ⟨hpos, g, hphase, hg⟩
  obtain ⟨s, hs, hfree, rfl⟩ := phase?_eq_some.1 hphase
  have hmem : n ∈ List.range' 1 (t.size - 1) := by
    have := lt_size_of_slot? hs
    rw [List.mem_range'_1]
    omega
  have hno := List.find?_eq_none.1 h n hmem
  simp [hs, hfree, hg] at hno

/-! ## Generations and counts -/

/-- The phase of a slot that has been released `count` times: its generation is the count, and stops at the
largest one when the slot is free. -/
def Agrees (limit : UInt16) (count : Nat) : Option (Bool × UInt16) → Prop
  | none => count = 0
  | some (true, g) => g.toNat = count
  | some (false, g) => g.toNat = min count limit.toNat

/-- Every slot but slot zero is in the phase that goes with the count of its releases. -/
structure Counted (limit : UInt16) (t : Table) (count : Nat → Nat) : Prop where
  limit_eq : t.maxGeneration = limit
  agrees : ∀ n ≠ 0, Agrees limit (count n) (t.phase? n)

namespace Counted

/-- Of all counts only that of the slot that has changed need be looked at. -/
theorem change {used : Bool} (h : Counted limit t count) (hu : PhaseChange t n used g u)
    (hg : Agrees limit (count' n) (some (used, g))) (hcount : ∀ m, m ≠ n → count' m = count m) :
    Counted limit u count' where
  limit_eq := hu.limit.trans h.limit_eq
  agrees := fun m hm => by
    rw [hu.phase]
    by_cases heq : m = n
    · rw [if_pos heq, heq]
      exact hg
    · rw [if_neg heq, hcount m heq]
      exact h.agrees m hm

theorem used (h : Counted limit t count) {s : Slot} (hv : t.validate id = .ok s) :
    id.generation.toNat = count id.number.toNat := by
  obtain ⟨hslot, hne, huse, hg⟩ := validate_ok.1 hv
  have hphase := h.agrees id.number.toNat fun h₀ => hne (UInt32.toNat_inj.1 h₀)
  rwa [phase?_eq_some.2 ⟨s, hslot, huse, hg⟩] at hphase

theorem free (h : Counted limit t count) (hn : n ≠ 0) (hphase : t.phase? n = some (false, g)) :
    g.toNat = min (count n) limit.toNat := by
  have hagrees := h.agrees n hn
  rwa [hphase] at hagrees

theorem beyond (h : Counted limit t count) (hn : n ≠ 0) (hphase : t.phase? n = none) : count n = 0 := by
  have hagrees := h.agrees n hn
  rwa [hphase] at hagrees

/-- A slot can come back as long as it has been released less often than the largest generation says. -/
theorem reusable_iff (h : Counted limit t count) :
    t.Reusable n ↔ 1 ≤ n ∧ t.Free n ∧ count n < limit.toNat := by
  refine and_congr_right fun hn => ?_
  rw [h.limit_eq]
  constructor
  · rintro ⟨g, hphase, hg⟩
    obtain ⟨s, hs, hf, -⟩ := phase?_eq_some.1 hphase
    have hcount := h.free (Nat.ne_of_gt hn) hphase
    rw [UInt16.lt_iff_toNat_lt] at hg
    exact ⟨⟨s, hs, hf⟩, by omega⟩
  · rintro ⟨⟨s, hs, hf⟩, hlt⟩
    have hphase : t.phase? n = some (false, s.generation) := phase?_eq_some.2 ⟨s, hs, hf, rfl⟩
    have hcount := h.free (Nat.ne_of_gt hn) hphase
    exact ⟨_, hphase, UInt16.lt_iff_toNat_lt.2 (by omega)⟩

end Counted

/-! ## What the operations do, by the counts -/

/-- The lowest slot that can come back does so, at the count of its releases. -/
theorem reserve_again (h : t.Chained chain) (hcount : Counted limit t count) (hr : t.reusable? = some n) :
    ∃ id u, reserve t = .ok id u ∧ id.number.toNat = n ∧ id.generation.toNat = count n ∧ u.size = t.size := by
  obtain ⟨s, p, sp, u, -, hslot, hfree, -, -, -, -, hok, -, hs⟩ := reserve_reused_of_chained h hr
  have hn : (UInt32.ofNat n).toNat = n :=
    UInt32.toNat_ofNat_of_lt' (Nat.lt_of_lt_of_le (lt_size_of_slot? hslot) h.size_le)
  refine ⟨_, u, hok, hn, ?_, ?_⟩
  · obtain ⟨⟨hpos, g, hphase, hlt⟩, -⟩ := isLeast_of_reusable? hr
    have hg := hcount.free (Nat.ne_of_gt hpos) hphase
    rw [phase?_of_slot? hslot, Slot.phase, hfree] at hphase
    cases hphase
    rw [hcount.limit_eq, UInt16.lt_iff_toNat_lt] at hlt
    exact hg.trans (by omega)
  · rw [hs.size_eq, List.length_set, List.length_set, length_toList]

/-- If no slot can come back, the table grows by one. -/
theorem reserve_behind (h : t.Chained chain) (hr : t.reusable? = none) (hsize : t.size ≤ 4294967295) :
    ∃ id u, reserve t = .ok id u ∧ id.number.toNat = t.size ∧ id.generation = 0 ∧ u.size = t.size + 1 := by
  obtain ⟨u, hok, -, hs⟩ := reserve_new_of_chained h hr hsize
  refine ⟨_, u, hok, UInt32.toNat_ofNat_of_lt' (Nat.lt_succ_of_le hsize), rfl, ?_⟩
  rw [hs.size_eq, List.length_append, length_toList, List.length_singleton]

/-- A new slot has never been released, and zero is its generation. -/
theorem count_behind (h : t.Chained chain) (hcount : Counted limit t count) : count t.size = 0 := by
  obtain ⟨head, hhead, -⟩ := h.head
  refine hcount.beyond (Nat.ne_of_gt (lt_size_of_slot? hhead)) ?_
  rw [phase?, slot?_eq_getElem?, List.getElem?_eq_none (Nat.le_of_eq (length_toList t))]
  rfl

/-- Whatever is given out has the count of its releases as its generation, and can have been released only
less often than the largest generation says, or never. -/
theorem reserve_counted (h : t.Chained chain) (hcount : Counted limit t count) (hok : reserve t = .ok id u) :
    id.generation.toNat = count id.number.toNat ∧
      (count id.number.toNat < limit.toNat ∨ count id.number.toNat = 0) := by
  cases hr : t.reusable? with
  | some n =>
      obtain ⟨id', u', hok', hn, hg, -⟩ := reserve_again h hcount hr
      rw [hok] at hok'
      cases hok'
      have hlt := (hcount.reusable_iff.1 (isLeast_of_reusable? hr).1).2.2
      exact ⟨hn ▸ hg, Or.inl (hn ▸ hlt)⟩
  | none =>
      by_cases hsize : t.size ≤ 4294967295
      · obtain ⟨id', u', hok', hn, hg, -⟩ := reserve_behind h hr hsize
        rw [hok] at hok'
        cases hok'
        have hzero := count_behind h hcount
        rw [← hn] at hzero
        refine ⟨?_, Or.inr hzero⟩
        rw [hg, hzero]
        rfl
      · rw [reserve_full hr (Nat.lt_of_not_le hsize)] at hok
        cases hok

theorem release_counted (h : t.Chained chain) (hcount : Counted limit t count) {s : Slot}
    (hv : t.validate id = .ok s) :
    ∃ u, release id t = .ok (.ofCount limit (count id.number.toNat + 1)) u ∧
      PhaseChange t id.number.toNat false (t.nextGeneration id.generation) u := by
  obtain ⟨head, hhead, -⟩ := h.head
  obtain ⟨u, hok, -⟩ := release_ok h.clean hv hhead
  obtain ⟨out, u', hok', hu⟩ := release_phase h hv
  rw [hok] at hok'
  cases hok'
  refine ⟨u, hok.trans ?_, hu⟩
  have hnext := t.toNat_nextGeneration id.generation
  rw [hcount.used hv, hcount.limit_eq] at hnext
  rw [Release.ofCount, hcount.limit_eq]
  by_cases hlt : count id.number.toNat + 1 < limit.toNat
  · have heq : t.nextGeneration id.generation = UInt16.ofNat (count id.number.toNat + 1) := by
      rw [← UInt16.toNat_inj, hnext, Nat.min_eq_left (Nat.le_of_lt hlt)]
      exact (UInt16.toNat_ofNat_of_lt' (Nat.lt_trans hlt limit.toNat_lt)).symm
    rw [if_pos (UInt16.lt_iff_toNat_lt.2 (by omega)), if_pos hlt, heq]
  · rw [if_neg fun hlt' => hlt (by have := UInt16.lt_iff_toNat_lt.1 hlt'; omega), if_neg hlt]

/-! ## Runs -/

/-- How often a slot has been released. -/
def releaseCount (log : Log) (n : Nat) : Nat := (releases log).count n

theorem releaseCount_append (newer older : Log) (n : Nat) :
    releaseCount (newer ++ older) n = releaseCount newer n + releaseCount older n := by
  rw [releaseCount, releases, List.filterMap_append, List.count_append]
  rfl

theorem releases_eq (log : Log) :
    releases log = (log.filterMap released?).map fun id => id.number.toNat := by
  rw [List.map_filterMap]
  refine List.filterMap_congr fun e _ => ?_
  obtain ⟨before, call, outcome, after⟩ := e
  cases call <;> cases outcome <;> rfl

theorem releaseCount_of_kept {e : Event Call TableError Table Answer} (h : released? e = none) (log : Log) :
    releaseCount (e :: log) = releaseCount log := by
  funext n
  rw [releaseCount, releases_eq, List.filterMap_cons_none h, ← releases_eq, releaseCount]

theorem releaseCount_of_release {e : Event Call TableError Table Answer} (h : released? e = some id) (log : Log)
    (n : Nat) :
    releaseCount (e :: log) n = if n = id.number.toNat then releaseCount log n + 1 else releaseCount log n := by
  rw [releaseCount, releases_eq, List.filterMap_cons_some h, List.map_cons, ← releases_eq, List.count_cons,
    releaseCount]
  by_cases hn : n = id.number.toNat
  · simp [hn]
  · simp [hn, Ne.symm hn]

theorem released?_of_ok {out : Release} (hok : release id t = .ok out u) :
    released? (.ofCall perform (.release id) t) = some id := by
  have hout := outcome_perform_release id t
  rw [Operation.outcome_ok hok] at hout
  simp [released?, Event.ofCall, hout, Except.map]

/-- The verdict on a slot at its release goes by the count that includes it. -/
theorem release_event (hc : t.Chained chain) (h : Counted limit t (releaseCount log)) {s : Slot}
    (hv : t.validate id = .ok s) :
    releaseCount (.ofCall perform (.release id) t :: log) id.number.toNat =
        releaseCount log id.number.toNat + 1 ∧
      ∃ u, release id t =
        .ok (.ofCount limit (releaseCount (.ofCall perform (.release id) t :: log) id.number.toNat)) u := by
  obtain ⟨u, hok, -⟩ := release_counted hc h hv
  have hnew := releaseCount_of_release (released?_of_ok hok) log id.number.toNat
  rw [if_pos rfl] at hnew
  exact ⟨hnew, u, hnew ▸ hok⟩

theorem counted_call (hc : t.Chained chain) (h : Counted limit t (releaseCount log)) (k : Call) :
    Counted limit ((perform k).next t) (releaseCount (.ofCall perform k t :: log)) := by
  cases k with
  | reserve =>
      rw [next_perform_reserve, releaseCount_of_kept rfl]
      rcases reserve_phase hc with ⟨id, u, hok, -, hu⟩ | herr
      · rw [Operation.next_ok hok]
        exact h.change hu (reserve_counted hc h hok).1 fun _ _ => rfl
      · rw [Operation.next_error herr]
        exact h
  | release id =>
      rw [next_perform_release]
      cases hv : t.validate id with
      | ok s =>
          obtain ⟨u, hok, hu⟩ := release_counted hc h hv
          have hl := released?_of_ok hok
          rw [Operation.next_ok hok]
          refine h.change hu ?_ fun m hm => ?_
          · rw [releaseCount_of_release hl, if_pos rfl, ← h.used hv, ← h.limit_eq]
            exact t.toNat_nextGeneration id.generation
          · rw [releaseCount_of_release hl, if_neg hm]
      | error e =>
          have hl : released? (.ofCall perform (.release id) t) = none := by
            rw [Event.ofCall, outcome_perform_release, Operation.outcome_error (release_error hv)]
            rfl
          rw [Operation.next_error (release_error hv), releaseCount_of_kept hl]
          exact h
  | setOffset id o =>
      rw [next_perform_setOffset, releaseCount_of_kept rfl]
      cases hv : t.validate id with
      | ok s =>
          obtain ⟨u, hok, hu⟩ := setOffset_phase hc hv o
          rw [Operation.next_ok hok]
          exact h.change hu (h.used hv) fun _ _ => rfl
      | error e =>
          rw [Operation.next_error (setOffset_error hv o)]
          exact h

theorem counted_first (hl : t.toList = [⟨0, t.maxGeneration, false, true⟩]) :
    Counted t.maxGeneration t (releaseCount []) where
  limit_eq := rfl
  agrees := fun n hn => by
    have hbeyond : t.phase? n = none := by
      rw [phase?, slot?_eq_getElem?, hl, List.getElem?_eq_none (Nat.one_le_iff_ne_zero.2 hn)]
      rfl
    rw [hbeyond]
    exact List.count_nil

theorem counted_run (hc : t.Chained []) (h₀ : Counted limit t (releaseCount [])) (h : Runs perform t log u) :
    Counted limit u (releaseCount log) := by
  induction h with
  | none => exact h₀
  | call hrun k ih =>
      obtain ⟨chain, hchained, -⟩ := chained_run hc hrun
      exact counted_call hchained ih k

theorem reserve_of_reserved? {k : Call} (h : reserved? (.ofCall perform k t) = some id) :
    ∃ u, reserve t = .ok id u := by
  cases k with
  | reserve =>
      have hout := outcome_perform_reserve t
      cases hres : reserve t with
      | ok id' u =>
          rw [Operation.outcome_ok hres] at hout
          simp only [reserved?, Event.ofCall, hout, Except.map, Option.some.injEq] at h
          exact ⟨u, h ▸ rfl⟩
      | error e u =>
          rw [Operation.outcome_error hres] at hout
          simp [reserved?, Event.ofCall, hout, Except.map] at h
  | release id' => cases h
  | setOffset id' o => cases h

/-- At a release that retires its slot the count has reached the largest generation. -/
theorem count_of_retired (hc : t.Chained chain) (h : Counted limit t (releaseCount log))
    (hout : (perform (.release id)).outcome t = .ok (.released .retired)) :
    limit.toNat ≤ releaseCount (.ofCall perform (.release id) t :: log) id.number.toNat ∧
      0 < releaseCount (.ofCall perform (.release id) t :: log) id.number.toNat := by
  rw [outcome_perform_release] at hout
  cases hv : t.validate id with
  | ok s =>
      obtain ⟨hnew, u, hok⟩ := release_event hc h hv
      rw [Operation.outcome_ok hok] at hout
      refine ⟨Nat.le_of_not_lt fun hlt => ?_, hnew ▸ Nat.succ_pos _⟩
      rw [Release.ofCount, if_pos hlt] at hout
      cases hout
  | error e =>
      rw [Operation.outcome_error (release_error hv)] at hout
      cases hout

/-- A slot that has been retired is not given out again. -/
theorem not_reserved_after (hc : t.Chained []) (h₀ : Counted limit t (releaseCount []))
    {newer older : Log} {e e' : Event Call TableError Table Answer} {id' : ObjectId}
    (h : Runs perform t (newer ++ e :: older) u) (hcall : e.call = .release id)
    (hout : e.outcome = .ok (.released .retired)) (he' : e' ∈ newer) (hr : reserved? e' = some id') :
    id'.number ≠ id.number := fun hn => by
  have hretired : limit.toNat ≤ releaseCount (e :: older) id.number.toNat ∧
      0 < releaseCount (e :: older) id.number.toNat := by
    obtain ⟨k, v, rfl, hrun⟩ := h.earlier
    obtain ⟨chain, hchained, -⟩ := chained_run hc hrun
    obtain rfl : k = .release id := hcall
    exact count_of_retired hchained (counted_run hc h₀ hrun) hout
  obtain ⟨latest, between, rfl⟩ := List.append_of_mem he'
  rw [List.append_assoc, List.cons_append] at h
  obtain ⟨k, v, rfl, hrun⟩ := h.earlier
  obtain ⟨chain, hchained, -⟩ := chained_run hc hrun
  obtain ⟨w, hok⟩ := reserve_of_reserved? hr
  -- The count has not fallen between the two calls.
  have hcount := (reserve_counted hchained (counted_run hc h₀ hrun) hok).2
  rw [releaseCount_append, hn] at hcount
  omega

/-- After any calls, the slot that is given out next is the lowest one that is free and has been released less
often than the largest generation says, at the count of its releases, or else a new one behind all others, at
zero. A release counts, and the slot comes back at the new count unless this has reached the largest
generation; then it is retired, and its number is not given out any more. -/
theorem reuse_of_run {cluster : Nat} (hc : 2 ≤ cluster) (limit : UInt16) :
    ∃ t₀, ofCluster cluster limit = .ok t₀ ∧ ∀ (log : Log) (t : Table), Runs perform t₀ log t →
      (∀ n, IsLeast {n | 1 ≤ n ∧ t.Free n ∧ releaseCount log n < limit.toNat} n →
        ∃ id u, reserve t = .ok id u ∧ id.number.toNat = n ∧ id.generation.toNat = releaseCount log n ∧
          u.size = t.size) ∧
      ((∀ n, 1 ≤ n → t.Free n → limit.toNat ≤ releaseCount log n) → t.size ≤ 4294967295 →
        ∃ id u, reserve t = .ok id u ∧ id.number.toNat = t.size ∧ id.generation = 0 ∧ u.size = t.size + 1) ∧
      (∀ id, id ∈ outstanding log ∧ (∃ u, release id t = .ok
            (.ofCount limit (releaseCount (.ofCall perform (.release id) t :: log) id.number.toNat)) u) ∨
          id ∉ outstanding log ∧ ∃ e, release id t = .error e t) ∧
      ∀ newer older e id, log = newer ++ e :: older → e.call = .release id →
        e.outcome = .ok (.released .retired) →
          ∀ e' ∈ newer, ∀ id', reserved? e' = some id' → id'.number ≠ id.number := by
  obtain ⟨t₀, h₀, hlimit, hchained, hlist⟩ := chained_ofCluster hc limit
  have hfirst : Counted limit t₀ (releaseCount []) := by
    have hfirst := counted_first (t := t₀) (by rw [hlist, hlimit])
    rwa [hlimit] at hfirst
  refine ⟨t₀, h₀, fun log t hrun => ?_⟩
  obtain ⟨⟨chain, h⟩, hledger⟩ := ledger_run hchained (ledger_first (hlimit ▸ hlist)) hrun
  have hcount := counted_run hchained hfirst hrun
  have hreusable : {n | 1 ≤ n ∧ t.Free n ∧ releaseCount log n < limit.toNat} = {n | t.Reusable n} :=
    Set.ext fun n => hcount.reusable_iff.symm
  refine ⟨fun n hn => ?_, fun hno hsize => ?_, fun id => ?_, ?_⟩
  · rw [hreusable] at hn
    cases hr : t.reusable? with
    | none => exact absurd hn.1 (not_reusable hr n)
    | some m =>
        obtain rfl := (isLeast_of_reusable? hr).unique hn
        exact reserve_again h hcount hr
  · have hr : t.reusable? = none := by
      cases hr : t.reusable? with
      | none => rfl
      | some m =>
          obtain ⟨hpos, hfree, hlt⟩ := hcount.reusable_iff.1 (isLeast_of_reusable? hr).1
          exact absurd hlt (Nat.not_lt.2 (hno m hpos hfree))
    exact reserve_behind h hr hsize
  · rw [hledger.held_iff, ← validate_iff_phase h]
    cases hv : t.validate id with
    | ok s => exact Or.inl ⟨⟨s, rfl⟩, (release_event h hcount hv).2⟩
    | error e => exact Or.inr ⟨by simp, _, release_error hv⟩
  · rintro newer older e id rfl hcall hout e' he' id' hr
    exact not_reserved_after hchained hfirst hrun hcall hout he' hr

/-- A slot that has been retired is passed over, although its number is lower. -/
theorem reuse_of_retired_slot : 2 ≤ 2 ∧ ∃ (t₀ : Table) (log : Log) (t : Table),
    ofCluster 2 2 = .ok t₀ ∧ Runs perform t₀ log t ∧
      log.map Event.call = [.release ⟨2, 0⟩, .reserve, .release ⟨1, 1⟩, .reserve, .release ⟨1, 0⟩, .reserve,
        .reserve] ∧
      t.Free 1 ∧ releaseCount log 1 = 2 ∧ releaseCount log 2 = 1 ∧
      (∃ id u, reserve t = .ok id u ∧ id.number.toNat = 2 ∧ id.generation.toNat = 1 ∧ u.size = t.size) ∧
      ∃ u, release ⟨3, 0⟩ t = .ok (.recycled 1) u := by
  obtain ⟨t₀, h₀, h⟩ := reuse_of_run (Nat.le_refl 2) 2
  let calls : List Call := [.reserve, .reserve, .release ⟨1, 0⟩, .reserve, .release ⟨1, 1⟩, .reserve,
    .release ⟨2, 0⟩]
  have hrun := runs_events perform calls t₀
  have hslots : (ofCluster 2 2).toOption.map (fun t =>
      let last := Operation.after perform calls t
      (last.phase? 1, last.phase? 2)) = some (some (false, 2), some (false, 1)) := by
    decide +kernel
  have hcounts : (ofCluster 2 2).toOption.map (fun t =>
      let log := Operation.events perform calls t
      (outstanding log, releaseCount log 1, releaseCount log 2,
        releaseCount (.ofCall perform (.release ⟨3, 0⟩) (Operation.after perform calls t) :: log) 3)) =
      some ([⟨3, 0⟩], 2, 1, 1) := by
    decide +kernel
  rw [h₀] at hslots hcounts
  injection hslots with hslots
  injection hslots with hone htwo
  injection hcounts with hcounts
  injection hcounts with hheld hcounts
  injection hcounts with hcount₁ hcounts
  injection hcounts with hcount₂ hcount₃
  have hcalls := Operation.map_call_events perform calls t₀
  -- What the calls lead to is not to be computed again.
  generalize Operation.after perform calls t₀ = t at hrun hone htwo hcount₃
  generalize Operation.events perform calls t₀ = log at hrun hcalls hcount₁ hcount₂ hheld hcount₃
  obtain ⟨hagain, -, hrelease, -⟩ := h log t hrun
  obtain ⟨s₁, hs₁, hf₁, -⟩ := phase?_eq_some.1 hone
  obtain ⟨s₂, hs₂, hf₂, -⟩ := phase?_eq_some.1 htwo
  have hleast : IsLeast {n | 1 ≤ n ∧ t.Free n ∧ releaseCount log n < (2 : UInt16).toNat} 2 := by
    refine ⟨⟨by decide, ⟨s₂, hs₂, hf₂⟩, by rw [hcount₂]; decide⟩, fun m ⟨hm, _, hlt⟩ => ?_⟩
    by_contra hlow
    obtain rfl : m = 1 := by omega
    rw [hcount₁] at hlt
    exact absurd hlt (by decide)
  obtain ⟨id, u, hok, hn, hg, hsize⟩ := hagain 2 hleast
  refine ⟨by decide, t₀, log, t, h₀, hrun, hcalls, ⟨s₁, hs₁, hf₁⟩, hcount₁, hcount₂,
    ⟨id, u, hok, hn, hg.trans hcount₂, hsize⟩, ?_⟩
  rcases hrelease ⟨3, 0⟩ with ⟨-, v, hv⟩ | ⟨hno, -⟩
  · rw [show (⟨3, 0⟩ : ObjectId).number.toNat = 3 from rfl, hcount₃] at hv
    exact ⟨v, hv⟩
  · rw [hheld] at hno
    exact absurd (by decide) hno

end Table

end PdfStore
