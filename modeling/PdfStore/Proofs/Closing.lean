import PdfStore.Proofs.WriteOnce

/-!
# When a store can be closed

A store keeps the identities of its catalog and its info, and forgets them when they are deleted. Identities
never come back, so a catalog is not taken for another object that stands in its slot later
(`Store.Registered`). With a catalog, and a body under every identity that has been given out and not taken
back, a store can be closed.
-/

namespace PdfStore.Store

variable {st st' : Store} {id : ObjectId} {o : Object} {refs : ReferenceTable} {log : Log}
variable {e : Event Call StoreError Store Answer}

/-! ## What a log tells of the catalog and the info -/

/-- The identity that a call makes the catalog. -/
def cataloged? (e : Event Call StoreError Store Answer) : Option ObjectId :=
  match e.call, e.outcome with
  | .setCatalog id, .ok _ => some id
  | _, _ => none

/-- The identity that a call makes the info. -/
def informed? (e : Event Call StoreError Store Answer) : Option ObjectId :=
  match e.call, e.outcome with
  | .setInfo id, .ok _ => some id
  | _, _ => none

/-- The identity that calls have named last, which has not been deleted since. -/
def Registered (names : Event Call StoreError Store Answer → Option ObjectId) (log : Log) (id : ObjectId) : Prop :=
  ∃ newer e older, log = newer ++ e :: older ∧ names e = some id ∧
    ∀ e' ∈ newer, names e' = none ∧ deleted? e' ≠ some id

theorem not_registered_nil (names : Event Call StoreError Store Answer → Option ObjectId) (id : ObjectId) :
    ¬ Registered names [] id := by
  rintro ⟨newer, e, older, h, -⟩
  exact List.cons_ne_nil _ _ (List.append_eq_nil_iff.1 h.symm).2

theorem registered_cons (names : Event Call StoreError Store Answer → Option ObjectId) : Registered names (e :: log) id ↔
    names e = some id ∨ names e = none ∧ Registered names log id ∧ deleted? e ≠ some id := by
  constructor
  · rintro ⟨newer, e', older, hsplit, hnames, hnewer⟩
    cases newer with
    | nil =>
        obtain ⟨rfl, -⟩ := List.cons.inj hsplit
        exact Or.inl hnames
    | cons x newer =>
        obtain ⟨rfl, rfl⟩ := List.cons.inj hsplit
        obtain ⟨⟨hnone, hkept⟩, hnewer⟩ := List.forall_mem_cons.1 hnewer
        exact Or.inr ⟨hnone, ⟨newer, e', older, rfl, hnames, hnewer⟩, hkept⟩
  · rintro (hnames | ⟨hnone, ⟨newer, e', older, rfl, hnames, hnewer⟩, hkept⟩)
    · exact ⟨[], e, log, rfl, hnames, by simp⟩
    · exact ⟨e :: newer, e', older, rfl, hnames, List.forall_mem_cons.2 ⟨⟨hnone, hkept⟩, hnewer⟩⟩

/-! ## One call -/

/-- A call names an identity, or leaves the one that was named if it does not delete it. -/
structure Named (e : Event Call StoreError Store Answer) : Prop where
  catalog : e.after.catalog = (cataloged? e).or (e.before.catalog.filter (deleted? e ≠ some ·))
  info : e.after.info = (informed? e).or (e.before.info.filter (deleted? e ≠ some ·))

theorem filter_kept (x : Option ObjectId) : x.filter (none ≠ some ·) = x := by cases x <;> simp

theorem filter_deleted (x : Option ObjectId) (id : ObjectId) :
    x.filter (some id ≠ some ·) = if x = some id then none else x := by
  cases x with
  | none => rfl
  | some id' =>
      by_cases hid : id' = id
      · simp [hid]
      · simp [hid, Ne.symm hid]

/-- A call that names nothing and deletes nothing. -/
theorem Named.same (hc : cataloged? e = none) (hi : informed? e = none) (hd : deleted? e = none)
    (hcatalog : e.after.catalog = e.before.catalog) (hinfo : e.after.info = e.before.info) : Named e where
  catalog := by rw [hc, hd, filter_kept, Option.none_or, hcatalog]
  info := by rw [hi, hd, filter_kept, Option.none_or, hinfo]

theorem reserve_rest (h : reserve st = .ok id st') : st'.catalog = st.catalog ∧ st'.info = st.info := by
  obtain ⟨u, -, rfl⟩ := table_of_reserve h
  exact ⟨rfl, rfl⟩

theorem appendBody_rest {n : Nat} (h : appendBody id o refs st = .ok n st') :
    st'.catalog = st.catalog ∧ st'.info = st.info := by
  obtain ⟨c, u, out, -, -, -, -, -, rfl⟩ := appendBody_ok h
  exact ⟨rfl, rfl⟩

theorem look_same {α : Type} {f : Store → Except StoreError α} {a : α} (h : look f st = .ok a st') : st = st' := by
  obtain ⟨_, _, hget, h⟩ := Operation.bind_ok h
  cases hget
  exact (Operation.ofExcept_ok h).2

theorem named_ok {k : Call} {a : Answer} (h : perform k st = .ok a st') : Named ⟨st, k, .ok a, st'⟩ := by
  cases k with
  | reserve =>
      obtain ⟨id, _, hok, h⟩ := Operation.bind_ok h
      cases h
      obtain ⟨hc, hi⟩ := reserve_rest hok
      exact .same rfl rfl rfl hc hi
  | delete id =>
      obtain ⟨out, _, hok, h⟩ := Operation.bind_ok h
      cases h
      obtain ⟨_, st₁, hrelease, h⟩ := Operation.bind_ok hok
      cases h
      obtain ⟨u, -, rfl⟩ := Operation.onPart_ok hrelease
      exact ⟨(filter_deleted _ id).symm, (filter_deleted _ id).symm⟩
  | writeAt id o refs =>
      obtain ⟨n, _, hok, h⟩ := Operation.bind_ok h
      cases h
      obtain ⟨hc, hi⟩ := appendBody_rest (appendBody_of_writeAt hok)
      exact .same rfl rfl rfl hc hi
  | replaceAt id o refs =>
      obtain ⟨n, _, hok, h⟩ := Operation.bind_ok h
      cases h
      obtain ⟨hc, hi⟩ := appendBody_rest (appendBody_of_replaceAt hok)
      exact .same rfl rfl rfl hc hi
  | write o refs =>
      obtain ⟨id, _, hok, h⟩ := Operation.bind_ok h
      cases h
      obtain ⟨id', st₁, hreserve, h⟩ := Operation.bind_ok hok
      obtain ⟨n, _, hwrite, h⟩ := Operation.bind_ok h
      cases h
      obtain ⟨hc, hi⟩ := appendBody_rest (appendBody_of_writeAt hwrite)
      obtain ⟨hc₁, hi₁⟩ := reserve_rest hreserve
      exact .same rfl rfl rfl (hc.trans hc₁) (hi.trans hi₁)
  | setCatalog id =>
      obtain ⟨_, _, hok, h⟩ := Operation.bind_ok h
      cases h
      obtain ⟨s, _, hs, h⟩ := Operation.bind_ok hok
      obtain rfl := checked_same hs
      cases h
      exact ⟨rfl, (filter_kept _).symm⟩
  | setInfo id =>
      obtain ⟨_, _, hok, h⟩ := Operation.bind_ok h
      cases h
      obtain ⟨s, _, hs, h⟩ := Operation.bind_ok hok
      obtain rfl := checked_same hs
      cases h
      exact ⟨(filter_kept _).symm, rfl⟩
  | resolve id =>
      obtain ⟨o, _, hok, h⟩ := Operation.bind_ok h
      cases h
      obtain rfl := look_same hok
      exact .same rfl rfl rfl rfl rfl
  | readRaw id =>
      obtain ⟨b, _, hok, h⟩ := Operation.bind_ok h
      cases h
      have halike := alike_of_readBack hok
      exact .same rfl rfl rfl halike.catalog halike.info

/-- A call that fails has named nothing. -/
theorem error_rest {k : Call} {cause : StoreError} (h : st.WellFormed) (hd : st.output.device = .memory)
    (he : perform k st = .error cause st') : st'.catalog = st.catalog ∧ st'.info = st.info := by
  by_cases hk : ∃ o refs, k = .write o refs
  · obtain ⟨o, refs, rfl⟩ := hk
    have herror := Operation.error_of_bind_pure he
    rcases write_cases h hd o refs with ⟨id, st₁, c, st₂, -, -, hok⟩ | ⟨id, st₁, e, hres, -, he'⟩ | ⟨-, he'⟩
    · rw [herror] at hok
      cases hok
    · rw [herror] at he'
      cases he'
      exact reserve_rest hres
    · rw [herror] at he'
      cases he'
      exact ⟨rfl, rfl⟩
  · rw [perform_error h hd (fun o refs heq => hk ⟨o, refs, heq⟩) he]
    exact ⟨rfl, rfl⟩

theorem named_call (h : st.WellFormed) (hd : st.output.device = .memory) (k : Call) :
    Named (.ofCall perform k st) := by
  cases hr : perform k st with
  | ok a st' =>
      rw [Event.ofCall, Operation.outcome_ok hr, Operation.next_ok hr]
      exact named_ok hr
  | error cause st' =>
      obtain ⟨hc, hi⟩ := error_rest h hd hr
      rw [Event.ofCall, Operation.outcome_error hr, Operation.next_error hr]
      refine .same ?_ ?_ ?_ hc hi
      all_goals cases k <;> rfl

/-! ## A whole run -/

/-- The store names what the log tells. -/
structure Names (log : Log) (st : Store) : Prop where
  catalog : ∀ id, st.catalog = some id ↔ Registered cataloged? log id
  info : ∀ id, st.info = some id ↔ Registered informed? log id

theorem registered_of_or {names : Event Call StoreError Store Answer → Option ObjectId} {x : Option ObjectId}
    (h : ∀ id, x = some id ↔ Registered names log id) (id : ObjectId) :
    (names e).or (x.filter (deleted? e ≠ some ·)) = some id ↔ Registered names (e :: log) id := by
  rw [registered_cons, Option.or_eq_some_iff, Option.filter_eq_some_iff, decide_eq_true_iff, h]

theorem names_run {config : Config} {first : Store} (h₀ : create .memory config = .ok first)
    (h : Runs perform first log st) : Names log st := by
  induction h with
  | none =>
      obtain ⟨-, table, o, -, -, -, rfl⟩ := create_parts h₀
      exact ⟨fun id => by simp [not_registered_nil], fun id => by simp [not_registered_nil]⟩
  | call hrun k ih =>
      have hrem := remembers_run h₀ hrun
      have hn := named_call hrem.wellFormed hrem.device k
      exact ⟨fun id => hn.catalog ▸ registered_of_or ih.catalog id, fun id => hn.info ▸ registered_of_or ih.info id⟩

/-- The identities that have been given out and not taken back since, and under which nothing has been written. -/
def unwritten (log : Log) : List ObjectId := (outstanding log).filter fun id => (lastWrite log id).isNone

theorem unwritten_eq_nil : unwritten log = [] ↔ ∀ id ∈ outstanding log, (lastWrite log id).isSome := by
  simp [unwritten, List.filter_eq_nil_iff, Option.isSome_iff_ne_none]

theorem recalled_eq_pending : recalled log id = .pending ↔ id ∈ unwritten log := by
  rw [recalled, unwritten, List.mem_filter]
  cases lastWrite log id with
  | none => by_cases hid : id ∈ outstanding log <;> simp [hid]
  | some w => by_cases hid : id ∈ outstanding log <;> simp [hid]

/-- The table lists the identities without a body, those of lower numbers first. -/
theorem Remembers.pending {config : Config} (h : Remembers config log st) :
    st.table.pending.Perm (unwritten log) ∧ st.table.pending.Pairwise fun a b => a.number < b.number := by
  obtain ⟨chain, hc⟩ := h.wellFormed.chained
  refine ⟨?_, Table.pairwise_identities hc _⟩
  have hnodup : (unwritten log).Nodup := (h.books.nodup.sublist (stillOut_sublist _ _ log)).filter _
  refine (List.perm_ext_iff_of_nodup (nodup_pending h.wellFormed) hnodup).2 fun id => ?_
  rw [mem_pending h.wellFormed, h.standing, recalled_eq_pending]

/-! ## Closing -/

theorem close_of_closable (hd : st.output.device = .memory) (h : st.checkClosable = .ok ()) :
    ∃ report, st.close = .ok report := by
  obtain ⟨catalog, hc, -⟩ := checkClosable_ok h
  obtain ⟨st', hf⟩ := finish_memory hd catalog
  refine ⟨⟨st.table.size, st.table.segments.length, st.position, ⟨.memory, st.file catalog⟩⟩, ?_⟩
  simp [close, h, hc, Operation.answer?, hf, bind, Except.bind, pure, Except.pure]

theorem close_of_not_closable {cause : StoreError} (h : st.checkClosable = .error cause) :
    st.close = .error cause := by
  simp [close, h, bind, Except.bind]

/-- What closing a store comes to after calls on it. -/
structure Closes (log : Log) (st : Store) : Prop where
  succeeds : (∃ report, st.close = .ok report) ↔
    (∃ id, Registered cataloged? log id) ∧ ∀ id ∈ outstanding log, (lastWrite log id).isSome
  missing : (∀ id, ¬ Registered cataloged? log id) → st.close = .error .missingCatalog
  /-- The error names the lowest number of an identity without a body, and how many there are. -/
  unwritten : ∀ id, Registered cataloged? log id → unwritten log ≠ [] → ∃ first ∈ unwritten log,
    (∀ id ∈ unwritten log, id ≠ first → first.number < id.number) ∧
      st.close = .error (.unwritten (unwritten log).length first)
  live : ∀ id, id ∈ st.table.live ↔ id ∈ outstanding log
  catalog : ∀ id, st.catalog = some id ↔ Registered cataloged? log id
  info : ∀ id, st.info = some id ↔ Registered informed? log id
  catalog_live : ∀ id, st.catalog = some id → id ∈ st.table.live
  info_live : ∀ id, st.info = some id → id ∈ st.table.live

theorem Remembers.closes {config : Config} (h : Remembers config log st) (hn : Names log st) : Closes log st := by
  obtain ⟨hperm, hordered⟩ := h.pending
  have hmissing (hno : ∀ id, ¬ Registered cataloged? log id) : st.close = .error .missingCatalog := by
    have hc : st.catalog = none := Option.eq_none_iff_forall_ne_some.2 fun id hid => hno id ((hn.catalog id).1 hid)
    exact close_of_not_closable (by rw [checkClosable, hc])
  have hunwritten (id : ObjectId) (hreg : Registered cataloged? log id) (hne : unwritten log ≠ []) :
      ∃ first ∈ unwritten log, (∀ id ∈ unwritten log, id ≠ first → first.number < id.number) ∧
        st.close = .error (.unwritten (unwritten log).length first) := by
    have hc := (hn.catalog id).2 hreg
    cases hp : st.table.pending with
    | nil =>
        rw [hp] at hperm
        exact absurd hperm.nil_eq.symm hne
    | cons first rest =>
        rw [hp] at hperm hordered
        refine ⟨first, hperm.mem_iff.1 List.mem_cons_self, fun id' hid' hne' => ?_, close_of_not_closable ?_⟩
        · exact (List.pairwise_cons.1 hordered).1 id' ((List.mem_cons.1 (hperm.mem_iff.2 hid')).resolve_left hne')
        · rw [checkClosable, hc, hp, ← hperm.length_eq]
          rfl
  constructor
  case succeeds =>
    rw [← unwritten_eq_nil]
    constructor
    · rintro ⟨report, hclose⟩
      obtain ⟨catalog, hc, hp, -⟩ := close_memory hclose h.device
      rw [hp] at hperm
      exact ⟨⟨catalog, (hn.catalog catalog).1 hc⟩, hperm.nil_eq.symm⟩
    · rintro ⟨⟨id, hreg⟩, hnil⟩
      have hp : st.table.pending = [] := (hnil ▸ hperm).eq_nil
      exact close_of_closable h.device (by rw [checkClosable, (hn.catalog id).2 hreg, hp])
  case missing => exact hmissing
  case unwritten => exact hunwritten
  case live => exact fun id => by rw [mem_live h.wellFormed, mem_iff_standing h.wellFormed h.books]
  case catalog => exact hn.catalog
  case info => exact hn.info
  case catalog_live => exact fun id hid => (mem_live h.wellFormed).2 (h.wellFormed.catalog id hid)
  case info_live => exact fun id hid => (mem_live h.wellFormed).2 (h.wellFormed.info id hid)

/-- A store in memory can be closed, after any calls, if its catalog has not been deleted since it was named and
every identity that is out has been written. If not, the error says what it lacks. The catalog and the info are
identities in use at all times. -/
theorem closes_of_run {config : Config} (hv : config.validate = .ok ()) :
    ∃ first, create .memory config = .ok first ∧ ∀ (log : Log) (st : Store), Runs perform first log st →
      Closes log st := by
  obtain ⟨first, h₀⟩ := create_memory hv
  exact ⟨first, h₀, fun log st hrun => (remembers_run h₀ hrun).closes (names_run h₀ hrun)⟩

/-- A catalog that is deleted, and whose slot another object takes: the store has no catalog until one is named
again, and cannot be closed before that object and another one have been written. -/
theorem closes_after_reuse : Config.validate ⟨"1.4", true, 2, 2⟩ = .ok () ∧
    ∃ (first : Store) (log : Log) (st st₁ st₂ : Store), create .memory ⟨"1.4", true, 2, 2⟩ = .ok first ∧
      Runs perform first log st ∧
      log.map Event.call = [.reserve, .reserve, .delete ⟨1, 0⟩, .setCatalog ⟨1, 0⟩, .reserve] ∧
      outstanding log = [⟨2, 0⟩, ⟨1, 1⟩] ∧ st.close = .error .missingCatalog ∧
      st₁ = Operation.after perform [.setCatalog ⟨1, 1⟩] st ∧ st₁.close = .error (.unwritten 2 ⟨1, 1⟩) ∧
      st₂ = Operation.after perform [.writeAt ⟨2, 0⟩ .null fun _ => none, .writeAt ⟨1, 1⟩ .null fun _ => none] st₁ ∧
      ∃ report, st₂.close = .ok report := by
  have hv : Config.validate ⟨"1.4", true, 2, 2⟩ = .ok () := by decide +kernel
  obtain ⟨first, h₀, h⟩ := closes_of_run hv
  let calls : List Call := [.reserve, .setCatalog ⟨1, 0⟩, .delete ⟨1, 0⟩, .reserve, .reserve]
  let naming : List Call := [.setCatalog ⟨1, 1⟩]
  let writes : List Call := [.writeAt ⟨2, 0⟩ .null fun _ => none, .writeAt ⟨1, 1⟩ .null fun _ => none]
  have hcatalogs : (create .memory ⟨"1.4", true, 2, 2⟩).toOption.map (fun first =>
      let st := Operation.after perform calls first
      let st₁ := Operation.after perform naming st
      (st.catalog, st₁.catalog, (Operation.after perform writes st₁).catalog)) =
      some (none, some ⟨1, 1⟩, some ⟨1, 1⟩) := by
    decide +kernel
  have hlists : (create .memory ⟨"1.4", true, 2, 2⟩).toOption.map (fun first =>
      let st := Operation.after perform calls first
      let log := Operation.events perform calls first
      let log₁ := Operation.events perform naming st ++ log
      let log₂ := Operation.events perform writes (Operation.after perform naming st) ++ log₁
      (outstanding log, unwritten log₁, unwritten log₂)) = some ([⟨2, 0⟩, ⟨1, 1⟩], [⟨2, 0⟩, ⟨1, 1⟩], []) := by
    decide +kernel
  rw [h₀] at hcatalogs hlists
  injection hcatalogs with hcatalogs
  injection hcatalogs with hcat hcatalogs
  injection hcatalogs with hcat₁ hcat₂
  injection hlists with hlists
  injection hlists with hout hlists
  injection hlists with hunwritten hnil
  have hrun := runs_events perform calls first
  have hcalls := Operation.map_call_events perform calls first
  -- What the calls lead to is not to be computed again.
  generalize Operation.after perform calls first = st at hrun hcat hcat₁ hcat₂ hunwritten hnil
  generalize Operation.events perform calls first = log at hrun hcalls hout hunwritten hnil
  have hrun₁ := hrun.after naming
  have hrun₂ := hrun₁.after writes
  have hcloses := h log st hrun
  have hcloses₁ := h _ _ hrun₁
  have hcloses₂ := h _ _ hrun₂
  refine ⟨hv, first, log, st, _, _, h₀, hrun, hcalls, hout, hcloses.missing fun id hreg => ?_, rfl, ?_, rfl,
    hcloses₂.succeeds.2 ⟨⟨⟨1, 1⟩, (hcloses₂.catalog _).1 hcat₂⟩, unwritten_eq_nil.1 hnil⟩⟩
  · rw [← hcloses.catalog, hcat] at hreg
    cases hreg
  · obtain ⟨lowest, hmem, hleast, hclose⟩ :=
      hcloses₁.unwritten ⟨1, 1⟩ ((hcloses₁.catalog _).1 hcat₁) (by rw [hunwritten]; exact List.cons_ne_nil _ _)
    rw [hunwritten] at hmem hleast hclose
    rcases List.mem_cons.1 hmem with rfl | hmem
    · exact absurd (hleast ⟨1, 1⟩ (by decide) (by decide)) (by decide)
    · rw [List.mem_singleton.1 hmem] at hclose
      exact hclose

end PdfStore.Store
