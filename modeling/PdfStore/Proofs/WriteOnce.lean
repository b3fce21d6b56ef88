import PdfStore.Proofs.Reservations

/-!
# Writing once

A first write needs an identity that is in use and has no body, a write that replaces a body needs one that is
in use, and both need an object that can be written. That an identity has no body is seen from the offset of
its slot, which is zero; the header stands there, and so no body ever does. What is written changes one slot
and one payload, and a call that is refused changes nothing.
-/

namespace PdfStore.Store

variable {st st' : Store} {id : ObjectId} {o : Object} {refs : ReferenceTable} {n : Nat}

/-! ## Which writes succeed -/

theorem standing_eq_pending (h : st.WellFormed) :
    st.standing id = .pending ↔ id ∈ st.table.live ∧ st.payloads.get? id.number = none := by
  rw [mem_live h, standing]
  cases st.table.validate id with
  | error e => simp
  | ok s => cases st.payloads.get? id.number <;> simp

theorem standing_eq_written (h : st.WellFormed) :
    (∃ o b, st.standing id = .written o b) ↔ id ∈ st.table.live ∧ (st.payloads.get? id.number).isSome := by
  rw [mem_live h, standing]
  cases st.table.validate id with
  | error e => simp
  | ok s => cases st.payloads.get? id.number <;> simp

theorem appendBody_succeeds (h : st.WellFormed) (hd : st.output.device = .memory) (hv : st.standing id ≠ .absent) :
    (∃ n st', appendBody id o refs st = .ok n st') ↔ ∃ c, o.toBytes (some refs) = .ok c := by
  rcases appendBody_cases h hv o refs with ⟨c, st', hok, hc, -⟩ | ⟨e, he, hc⟩ | ⟨-, hfull⟩
  · exact ⟨fun _ => ⟨c, hc⟩, fun _ => ⟨_, st', hok⟩⟩
  · simp [he, hc]
  · rw [hd] at hfull
    cases hfull

theorem writeAt_succeeds (h : st.WellFormed) (hd : st.output.device = .memory) :
    (∃ n st', writeAt id o refs st = .ok n st') ↔
      id ∈ st.table.live ∧ st.payloads.get? id.number = none ∧ ∃ c, o.toBytes (some refs) = .ok c := by
  rw [← and_assoc, ← standing_eq_pending h]
  cases hv : st.standing id with
  | absent =>
      obtain ⟨e, he⟩ : ∃ e, writeAt id o refs st = .error (.table e) st := writeAt_absent hv
      simp [he]
  | pending => simpa [writeAt_pending h hv] using appendBody_succeeds h hd (by simp [hv])
  | written o' b => simp [writeAt_written h hv]

theorem replaceAt_succeeds (h : st.WellFormed) (hd : st.output.device = .memory) :
    (∃ n st', replaceAt id o refs st = .ok n st') ↔
      id ∈ st.table.live ∧ ∃ c, o.toBytes (some refs) = .ok c := by
  rw [mem_live h]
  by_cases hv : st.standing id = .absent
  · obtain ⟨e, he⟩ : ∃ e, replaceAt id o refs st = .error (.table e) st := replaceAt_absent hv
    simp [he, hv]
  · rw [replaceAt_live hv, appendBody_succeeds h hd hv, and_iff_right hv]

/-! ## What a write changes -/

/-- A store that has one body more at the end of its output, which is that of an identity from now on. -/
structure Wrote (id : ObjectId) (o : Object) (c : Bytes) (n : Nat) (st st' : Store) : Prop where
  offset : n = st.position ∧ n = st.output.content.length ∧ n ≠ 0
  device : st'.output.device = st.output.device
  content : st'.output.content = st.output.content ++ FileText.object id c
  position : st'.position = st'.output.content.length
  slot : ∃ s, st.slot? id.number.toNat = some s ∧
    st'.slot? id.number.toNat = some { s with offset := n, dirty := true }
  slots : ∀ m, m ≠ id.number.toNat → st'.slot? m = st.slot? m
  limit : st'.table.maxGeneration = st.table.maxGeneration
  payload : st'.payloads.get? id.number = some ⟨o, (FileText.object id c).length⟩
  payloads : ∀ m, m ≠ id.number → st'.payloads.get? m = st.payloads.get? m
  catalog : st'.catalog = st.catalog
  info : st'.info = st.info
  config : st'.config = st.config

theorem wrote_of_appendBody (h : st.WellFormed) (hok : appendBody id o refs st = .ok n st') :
    ∃ c, o.toBytes (some refs) = .ok c ∧ Wrote id o c n st st' := by
  obtain ⟨c, u, out, hc, hn, ht, hd, hout, rfl⟩ := appendBody_ok hok
  obtain ⟨chain, hchain⟩ := h.chained
  cases hv : st.table.validate id with
  | error e =>
      -- The place of the body has been recorded, so the identity is in use.
      rw [Table.setOffset_error hv] at ht
      cases ht
  | ok s =>
      obtain ⟨u', hu, hs⟩ := Table.setOffset_ok hchain.clean hv n
      rw [ht] at hu
      cases hu
      have hslot := (Table.validate_ok.1 hv).1
      have hlt : id.number.toNat < st.table.toList.length := by
        rw [Table.length_toList]
        exact Table.lt_size_of_slot? hslot
      refine ⟨c, hc, ?_⟩
      constructor
      case offset => exact ⟨hn, hn.trans (position_eq st), hn ▸ Nat.ne_of_gt (position_pos h)⟩
      case device => exact hd
      case content => exact hout
      case position => exact position_eq _
      case slot => exact ⟨s, hslot, (hs.slot?_set hlt _).trans (if_pos rfl)⟩
      case slots =>
        intro m hm
        refine (hs.slot?_set hlt m).trans ?_
        rw [if_neg hm, ← Table.slot?_eq_getElem?, slot?]
      case limit => exact hs.limit
      case payload => exact OrderedMap.get?_insert_self _ _ _
      case payloads => exact fun m hm => OrderedMap.get?_insert_of_ne _ hm _
      case catalog => rfl
      case info => rfl
      case config => rfl

/-! ## What is left by a call that is refused -/

/-- An operation that either succeeds or leaves the store as it is. -/
theorem same_of_error {α : Type} {x : Operation StoreError Store α} {e : StoreError}
    (h : (∃ a st', x st = .ok a st') ∨ ∃ e, x st = .error e st) (he : x st = .error e st') : st' = st := by
  rcases h with ⟨a, st₁, hok⟩ | ⟨e', he'⟩
  · rw [hok] at he
    cases he
  · rw [he'] at he
    cases he
    rfl

/-- Only a write under a new identity may fail after it has changed something. -/
theorem perform_error {k : Call} {e : StoreError} (h : st.WellFormed) (hd : st.output.device = .memory)
    (hk : ∀ o refs, k ≠ .write o refs) (he : perform k st = .error e st') : st' = st := by
  cases k with
  | reserve =>
      refine same_of_error ?_ (Operation.error_of_bind_pure he)
      exact (reserve_cases h).imp (fun ⟨id, st', hok, _⟩ => ⟨id, st', hok⟩) fun he => ⟨_, he⟩
  | delete id =>
      refine same_of_error ?_ (Operation.error_of_bind_pure he)
      by_cases hv : st.standing id = .absent
      · exact Or.inr (delete_absent hv)
      · obtain ⟨out, st', hok, -⟩ := delete_live h hv
        exact Or.inl ⟨out, st', hok⟩
  | writeAt id o refs =>
      refine same_of_error ?_ (Operation.error_of_bind_pure he)
      exact (writeAt_effect h id o refs).imp_left fun ⟨n, st', hok, _⟩ => ⟨n, st', hok⟩
  | replaceAt id o refs =>
      refine same_of_error ?_ (Operation.error_of_bind_pure he)
      exact (replaceAt_effect h id o refs).imp_left fun ⟨n, st', hok, _⟩ => ⟨n, st', hok⟩
  | write o refs => exact absurd rfl (hk o refs)
  | setCatalog id =>
      refine same_of_error ?_ (Operation.error_of_bind_pure he)
      by_cases hv : st.standing id = .absent
      · obtain ⟨e, he⟩ := setCatalog_absent hv
        exact Or.inr ⟨_, he⟩
      · obtain ⟨st', hok, -⟩ := setCatalog_live h hv
        exact Or.inl ⟨_, st', hok⟩
  | setInfo id =>
      refine same_of_error ?_ (Operation.error_of_bind_pure he)
      by_cases hv : st.standing id = .absent
      · obtain ⟨e, he⟩ := setInfo_absent hv
        exact Or.inr ⟨_, he⟩
      · obtain ⟨st', hok, -⟩ := setInfo_live h hv
        exact Or.inl ⟨_, st', hok⟩
  | resolve id =>
      exact same_of_error ((look_cases _ st).imp_left fun ⟨a, hok⟩ => ⟨a, st, hok⟩)
        (Operation.error_of_bind_pure he)
  | readRaw id =>
      exact same_of_error ((readBack_cases h (by simp [hd]) id).imp_left fun ⟨b, hok⟩ => ⟨b, _, hok⟩)
        (Operation.error_of_bind_pure he)

/-! ## All writes -/

/-- In a store in memory an identity in use is written once, and written again only on purpose. What succeeds
adds one body and changes nothing but the slot and the payload of its identity; what is refused changes
nothing. -/
theorem writes_once (h : st.Reachable) (hd : st.output.device = .memory) :
    (∀ id o refs,
      ((∃ n st', writeAt id o refs st = .ok n st') ↔
        id ∈ st.table.live ∧ st.payloads.get? id.number = none ∧ ∃ c, o.toBytes (some refs) = .ok c) ∧
      ((∃ n st', replaceAt id o refs st = .ok n st') ↔
        id ∈ st.table.live ∧ ∃ c, o.toBytes (some refs) = .ok c) ∧
      (id ∈ st.table.live → (st.payloads.get? id.number).isSome →
        writeAt id o refs st = .error (.doubleWrite id) st) ∧
      ∀ n st', writeAt id o refs st = .ok n st' ∨ replaceAt id o refs st = .ok n st' →
        ∃ c, o.toBytes (some refs) = .ok c ∧ Wrote id o c n st st') ∧
    ∀ k e st', (∀ o refs, k ≠ .write o refs) → perform k st = .error e st' → st' = st := by
  have hwf := h.wellFormed
  refine ⟨fun id o refs => ⟨writeAt_succeeds hwf hd, replaceAt_succeeds hwf hd, fun hlive hsome => ?_, ?_⟩,
    fun k e st' hk => perform_error hwf hd hk⟩
  · obtain ⟨o', b, hv⟩ := (standing_eq_written hwf).2 ⟨hlive, hsome⟩
    exact writeAt_written hwf hv
  · rintro n st' (hok | hok)
    · exact wrote_of_appendBody hwf (appendBody_of_writeAt hok)
    · exact wrote_of_appendBody hwf (appendBody_of_replaceAt hok)

/-- A first write under a number that is given out a second time, one under an identity that has a body, and a
write that would replace a body by an object that cannot be written. -/
theorem writes_once_of_second_generation : ∃ first log st n st', create .memory ⟨"1.4", true, 2, 2⟩ = .ok first ∧
    Runs perform first log st ∧
    log.map Event.call = [.writeAt ⟨2, 0⟩ (.boolean true) fun _ => none, .reserve, .reserve, .delete ⟨1, 0⟩,
      .write .null fun _ => none] ∧
    writeAt ⟨1, 1⟩ (.array [.indirect ⟨0⟩]) (fun _ => some ⟨2, 0⟩) st = .ok n st' ∧
    Wrote ⟨1, 1⟩ (.array [.indirect ⟨0⟩]) (Bytes.ofString "[2 0 R]") n st st' ∧
    writeAt ⟨2, 0⟩ .null (fun _ => none) st = .error (.doubleWrite ⟨2, 0⟩) st ∧
    ∃ e, perform (.replaceAt ⟨2, 0⟩ (.array [.null, .indirect ⟨0⟩]) fun _ => none) st = .error e st := by
  have hv : Config.validate ⟨"1.4", true, 2, 2⟩ = .ok () := by decide +kernel
  obtain ⟨first, h₀⟩ := create_memory hv
  let calls : List Call := [.write .null fun _ => none, .delete ⟨1, 0⟩, .reserve, .reserve,
    .writeAt ⟨2, 0⟩ (.boolean true) fun _ => none]
  let k : Call := .replaceAt ⟨2, 0⟩ (.array [.null, .indirect ⟨0⟩]) fun _ => none
  have hstate : (create .memory ⟨"1.4", true, 2, 2⟩).toOption.map (fun first =>
      let st := Operation.after perform calls first
      (st.output.device, st.table.live, (st.payloads.get? 1).isNone, (st.payloads.get? 2).isSome,
        ((perform k).outcome st).isOk)) = some (.memory, [⟨1, 1⟩, ⟨2, 0⟩], true, true, false) := by
    decide +kernel
  rw [h₀] at hstate
  injection hstate with hstate
  injection hstate with hdevice hstate
  injection hstate with hlive hstate
  injection hstate with hnone hstate
  injection hstate with hsome hfails
  have hrun := runs_events perform calls first
  have hcalls := Operation.map_call_events perform calls first
  -- What the calls lead to is not to be computed again.
  generalize Operation.after perform calls first = st at hrun hdevice hlive hnone hsome hfails
  generalize Operation.events perform calls first = log at hrun hcalls
  have hreach : st.Reachable := ⟨_, _, first, log, h₀, hrun⟩
  obtain ⟨hwrites, hrefused⟩ := writes_once hreach hdevice
  obtain ⟨hfirst, -, -, hwrote⟩ := hwrites ⟨1, 1⟩ (.array [.indirect ⟨0⟩]) fun _ => some ⟨2, 0⟩
  obtain ⟨n, st', hok⟩ := hfirst.2 ⟨by simp [hlive], Option.isNone_iff_eq_none.1 hnone, _, rfl⟩
  obtain ⟨c, hc, hbody⟩ := hwrote n st' (Or.inl hok)
  cases hc
  obtain ⟨-, -, hdouble, -⟩ := hwrites ⟨2, 0⟩ .null fun _ => none
  obtain ⟨e, he⟩ := Operation.error_of_outcome hfails
  have hsame := hrefused _ _ _ (by simp [k]) he
  rw [hsame] at he
  exact ⟨first, log, st, n, st', h₀, hrun, hcalls, hok, hbody, hdouble (by simp [hlive]) hsome, e, he⟩

end PdfStore.Store
