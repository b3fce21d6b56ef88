import PdfStore.Proofs.ClosedFile
import PdfStore.Proofs.Growth
import PdfStore.Proofs.ReadBack

/-!
# Reserved identities

An identity that has been given out and has no body keeps its store from being closed. A write under a new
identity reserves it first, and an object that cannot be written leaves it behind.
-/

namespace PdfStore.Store

variable {st st' : Store} {id : ObjectId} {o : Object} {refs : ReferenceTable}

/-! ## The identities in use, and those without a body -/

theorem mem_live (h : st.WellFormed) : id ∈ st.table.live ↔ st.standing id ≠ .absent := by
  obtain ⟨chain, hc⟩ := h.chained
  rw [Table.mem_live hc, ← Table.validate_iff_phase hc]
  exact ⟨fun ⟨_, hs⟩ => standing_of_validate hs, validate_of_standing⟩

theorem mem_pending (h : st.WellFormed) : id ∈ st.table.pending ↔ st.standing id = .pending := by
  obtain ⟨chain, hc⟩ := h.chained
  rw [Table.pending, Table.mem_identities hc]
  constructor
  · rintro ⟨s, hs, hp, hg⟩
    have hused : s.inUse = true := by
      rw [Slot.isPending, Bool.and_eq_true] at hp
      exact hp.1
    have hv : st.table.validate id = .ok s :=
      (Table.validate_ok_iff_entry hc).2 ⟨Table.used?_eq_some.2 ⟨hs, hused⟩, hg⟩
    exact (isPending_of_standing h hv).1 hp
  · intro hst
    obtain ⟨s, hv⟩ := validate_of_standing (by simp [hst] : st.standing id ≠ .absent)
    obtain ⟨hentry, hg⟩ := (Table.validate_ok_iff_entry hc).1 hv
    exact ⟨s, (Table.used?_eq_some.1 hentry).1, (isPending_of_standing h hv).2 hst, hg⟩

theorem nodup_pending (h : st.WellFormed) : st.table.pending.Nodup := by
  obtain ⟨chain, hc⟩ := h.chained
  refine (Table.pairwise_identities hc _).imp fun hlt heq => ?_
  rw [heq] at hlt
  exact UInt32.lt_irrefl _ hlt

theorem pending_of_becomes (h : st.WellFormed) (hid : st.standing id = .absent) (hb : st.Becomes id .pending st') :
    st'.table.pending.Perm (id :: st.table.pending) := by
  have hnew : id ∉ st.table.pending := fun hmem => by
    rw [mem_pending h, hid] at hmem
    cases hmem
  refine (List.perm_ext_iff_of_nodup (nodup_pending hb.wellFormed) (List.nodup_cons.2 ⟨hnew, nodup_pending h⟩)).2 ?_
  intro id'
  rw [mem_pending hb.wellFormed, hb.standing, List.mem_cons, mem_pending h]
  by_cases heq : id' = id
  · simp [heq]
  · simp [heq]

/-- The first of the identities without a body is named when a store is not closed on their account. -/
theorem checkClosable_of_pending (hc : st.catalog.isSome) (hp : st.table.pending ≠ []) :
    ∃ first, first ∈ st.table.pending ∧ st.checkClosable = .error (.unwritten st.table.pending.length first) := by
  obtain ⟨catalog, hc⟩ := Option.isSome_iff_exists.1 hc
  cases hl : st.table.pending with
  | nil => exact absurd hl hp
  | cons first rest => exact ⟨first, List.mem_cons_self, by simp only [checkClosable, hc, hl, List.length_cons]⟩

/-! ## Reserving -/

/-- A store in which a new identity has been reserved, and which is the same otherwise. -/
structure Reserved (id : ObjectId) (st st' : Store) : Prop where
  table : st' = { st with table := st'.table }
  fresh : ¬ st.table.Past id
  standing : ∀ id', st'.standing id' = if id' = id then .pending else st.standing id'
  pending : st'.table.pending.Perm (id :: st.table.pending)
  unready : st.catalog.isSome → ∃ first ∈ id :: st.table.pending,
    st'.checkClosable = .error (.unwritten (st.table.pending.length + 1) first)

theorem reserved_of_reserve (h : st.WellFormed) (hok : reserve st = .ok id st') : Reserved id st st' := by
  obtain ⟨u, hu, hst'⟩ := table_of_reserve hok
  rcases reserve_cases h with ⟨id₁, st₁, hok₁, habs, hb⟩ | hfull
  · rw [hok] at hok₁
    cases hok₁
    have hperm := pending_of_becomes h habs hb
    refine ⟨by rw [hst'], (Table.fresh_of_reserve h.chained hu).1, hb.standing, hperm, fun hc => ?_⟩
    have hc' : st'.catalog.isSome := by rwa [hst']
    have hne : st'.table.pending ≠ [] := fun hnil => by
      rw [hnil] at hperm
      exact List.not_mem_nil (hperm.mem_iff.2 List.mem_cons_self)
    obtain ⟨first, hmem, hcheck⟩ := checkClosable_of_pending hc' hne
    refine ⟨first, hperm.mem_iff.1 hmem, ?_⟩
    rw [hcheck, hperm.length_eq, List.length_cons]
  · rw [hok] at hfull
    cases hfull

/-! ## Writing under a new identity -/

theorem write_cases (h : st.WellFormed) (hd : st.output.device = .memory) (o : Object) (refs : ReferenceTable) :
    (∃ id st₁ c st₂, reserve st = .ok id st₁ ∧ o.toBytes (some refs) = .ok c ∧ write o refs st = .ok id st₂) ∨
    (∃ id st₁ cause, reserve st = .ok id st₁ ∧ o.toBytes (some refs) = .error cause ∧
      write o refs st = .error (.object cause) st₁) ∨
    reserve st = .error (.table .full) st ∧ write o refs st = .error (.table .full) st := by
  rcases reserve_cases h with ⟨id, st₁, hok, -, hb⟩ | hfull
  · have hp : st₁.standing id = .pending := hb.self
    have hne : st₁.standing id ≠ .absent := by simp [hp]
    have hwrite : writeAt id o refs st₁ = appendBody id o refs st₁ := writeAt_pending hb.wellFormed hp
    rcases appendBody_cases hb.wellFormed hne o refs with ⟨c, st₂, hok₂, hc, -⟩ | ⟨cause, he, hc⟩ | ⟨-, hfull⟩
    · refine Or.inl ⟨id, st₁, c, st₂, hok, hc, ?_⟩
      exact (Operation.bind_of_ok hok).trans (Operation.bind_of_ok (hwrite.trans hok₂))
    · refine Or.inr (Or.inl ⟨id, st₁, cause, hok, hc, ?_⟩)
      exact (Operation.bind_of_ok hok).trans (Operation.bind_of_error (hwrite.trans he))
    · rw [hb.device, hd] at hfull
      cases hfull
  · exact Or.inr (Or.inr ⟨hfull, Operation.bind_of_error hfull⟩)

/-- A write under a new identity fails if no identity is left, which changes nothing, or if the object cannot be
written. The identity that has been reserved for it then stays reserved: it is one that has never been given
out, nothing else has changed, and the store cannot be closed. -/
theorem write_eq_error_iff (h : st.Reachable) (hd : st.output.device = .memory) :
    (∀ o refs e st', write o refs st = .error e st' ↔
      e = .table .full ∧ st' = st ∧ reserve st = .error (.table .full) st ∨
        ∃ id cause, reserve st = .ok id st' ∧ o.toBytes (some refs) = .error cause ∧ e = .object cause) ∧
      ∀ id st', reserve st = .ok id st' → Reserved id st st' := by
  refine ⟨fun o refs e st' => ?_, fun id st' => reserved_of_reserve h.wellFormed⟩
  rcases write_cases h.wellFormed hd o refs with
    ⟨id, st₁, c, st₂, hres, hc, hok⟩ | ⟨id, st₁, cause, hres, hc, he⟩ | ⟨hfull, he⟩
  · rw [hok, hres, hc]
    constructor
    · intro hf
      cases hf
    · rintro (⟨-, -, hf⟩ | ⟨_, _, -, hf, -⟩) <;> cases hf
  · rw [he, hres, hc]
    constructor
    · intro hf
      cases hf
      exact Or.inr ⟨id, cause, rfl, rfl, rfl⟩
    · rintro (⟨-, -, hf⟩ | ⟨id', cause', hok, hc', rfl⟩)
      · cases hf
      · cases hok
        cases hc'
        rfl
  · rw [he, hfull]
    constructor
    · intro hf
      cases hf
      exact Or.inl ⟨rfl, rfl, rfl⟩
    · rintro (⟨rfl, rfl, -⟩ | ⟨_, _, hok, -⟩)
      · rfl
      · cases hok

/-- A write that fails after it has reserved a number again. -/
theorem write_eq_error_iff_of_released : ∃ first log st st', create .memory ⟨"1.4", true, 2, 2⟩ = .ok first ∧
    Runs perform first log st ∧
    log.map Event.call = [.delete ⟨1, 0⟩, .write .null fun _ => none, .write (.boolean true) fun _ => none] ∧
    write (.array [.null, .indirect ⟨0⟩]) (fun _ => none) st = .error (.object (.unbound ⟨0⟩)) st' ∧
    Reserved ⟨1, 1⟩ st st' := by
  have hv : Config.validate ⟨"1.4", true, 2, 2⟩ = .ok () := by decide +kernel
  obtain ⟨first, h₀⟩ := create_memory hv
  let calls : List Call := [.write (.boolean true) fun _ => none, .write .null fun _ => none, .delete ⟨1, 0⟩]
  have hstate : (create .memory ⟨"1.4", true, 2, 2⟩).toOption.map (fun first =>
      let st := Operation.after perform calls first
      (st.output.device, (reserve.outcome st).toOption)) = some (.memory, some ⟨1, 1⟩) := by
    decide +kernel
  rw [h₀] at hstate
  injection hstate with hstate
  injection hstate with hdevice hreserve
  have hrun := runs_events perform calls first
  have hcalls := Operation.map_call_events perform calls first
  -- What the calls lead to is not to be computed again.
  generalize Operation.after perform calls first = st at hrun hdevice hreserve
  generalize Operation.events perform calls first = log at hrun hcalls
  have hok := Operation.ok_of_outcome hreserve
  have hreach : st.Reachable := ⟨_, _, first, log, h₀, hrun⟩
  exact ⟨first, log, st, _, h₀, hrun, hcalls,
    ((write_eq_error_iff hreach hdevice).1 _ _ _ _).2 (Or.inr ⟨_, _, hok, rfl, rfl⟩),
    (write_eq_error_iff hreach hdevice).2 _ _ hok⟩

/-- A store that could be closed before a write failed, and in which an identity is left without a body. -/
theorem not_unchanged_of_failed_write : ∃ first log st st' e, create .memory ⟨"1.4", false, 2, 2⟩ = .ok first ∧
    Runs perform first log st ∧
    log.map Event.call = [.setCatalog ⟨1, 0⟩, .write (.boolean true) fun _ => none] ∧
    write (.real (Float.ofBits 0x7ff8000000000000)) (fun _ => none) st = .error e st' ∧
    st.table.pending = [] ∧ st'.table.pending = [⟨2, 0⟩] ∧
    st.checkClosable.isOk = true ∧ st'.checkClosable.isOk = false := by
  have hv : Config.validate ⟨"1.4", false, 2, 2⟩ = .ok () := by decide +kernel
  obtain ⟨first, h₀⟩ := create_memory hv
  let calls : List Call := [.write (.boolean true) fun _ => none, .setCatalog ⟨1, 0⟩]
  let x := write (.real (Float.ofBits 0x7ff8000000000000)) fun _ => none
  have hstate : (create .memory ⟨"1.4", false, 2, 2⟩).toOption.map (fun first =>
      let st := Operation.after perform calls first
      ((x.outcome st).isOk, st.table.pending, (x.next st).table.pending, st.checkClosable.isOk,
        (x.next st).checkClosable.isOk)) = some (false, [], [⟨2, 0⟩], true, false) := by
    decide +kernel
  rw [h₀] at hstate
  injection hstate with hstate
  injection hstate with hfails hstate
  obtain ⟨e, he⟩ := Operation.error_of_outcome hfails
  injection hstate with hbefore hstate
  injection hstate with hafter hstate
  injection hstate with hclosable hunclosable
  exact ⟨first, _, _, _, e, h₀, runs_events perform calls first, Operation.map_call_events perform calls first, he,
    hbefore, hafter, hclosable, hunclosable⟩

end PdfStore.Store
