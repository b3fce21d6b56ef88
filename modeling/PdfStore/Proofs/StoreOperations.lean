import PdfStore.Proofs.FileText
import PdfStore.Proofs.StoreContents

/-!
# What the operations of a store do

Each operation either succeeds and gives one identity another standing, or fails and leaves the store as
it was. A write that finds no room on the device fails after the reservation that came before it.
-/

namespace PdfStore.Store

variable {st st' : Store} {id id' : ObjectId} {o : Object} {refs : ReferenceTable}

theorem onTable_ok {α : Type} {x : Operation TableError Table α} {a : α} {u : Table}
    (h : x st.table = .ok a u) : onTable x st = .ok a { st with table := u } :=
  Operation.onPart_of_ok h

theorem onTable_error {α : Type} {x : Operation TableError Table α} {e : TableError} {u : Table}
    (h : x st.table = .error e u) : onTable x st = .error (.table e) { st with table := u } :=
  Operation.onPart_of_error h

theorem onOutput_ok {α : Type} {x : Operation Unit OutputCursor α} {a : α} {out : OutputCursor}
    (h : x st.output = .ok a out) : onOutput x st = .ok a { st with output := out } :=
  Operation.onPart_of_ok h

theorem onOutput_error {α : Type} {x : Operation Unit OutputCursor α} {e : Unit} {out : OutputCursor}
    (h : x st.output = .error e out) : onOutput x st = .error .device { st with output := out } :=
  Operation.onPart_of_error h

/-- A reservation changes the table only. -/
theorem table_of_reserve (h : reserve st = .ok id st') :
    ∃ u, Table.reserve st.table = .ok id u ∧ st' = { st with table := u } := by
  rw [reserve, onTable] at h
  exact Operation.onPart_ok h

theorem checked_ok {s : Slot} (h : st.table.validate id = .ok s) : checked id st = .ok s st := by
  rw [checked, Operation.bind_of_ok (Operation.get_apply st), validate, h]
  rfl

theorem checked_error {e : TableError} (h : st.table.validate id = .error e) :
    checked id st = .error (.table e) st := by
  rw [checked, Operation.bind_of_ok (Operation.get_apply st), validate, h]
  rfl

/-! ## Appending -/

theorem append_cases (b : Bytes) (st : Store) :
    (∃ o, append b st = .ok st.position { st with output := o } ∧ o.device = st.output.device ∧
      o.content = st.output.content ++ b) ∨ append b st = .error .device st ∧ st.output.device = .full :=
  (OutputCursor.append_cases st.output b).imp (fun ⟨o, hok, h⟩ => ⟨o, onOutput_ok hok, h⟩)
    fun ⟨herr, hd⟩ => ⟨onOutput_error herr, hd⟩

/-! ## Creating -/

theorem header_pos (c : Config) : 0 < c.header.length := by
  have : Bytes.ofString "%PDF-" <+: c.header := by
    rw [Config.header, Bytes.ofString_append, Bytes.ofString_append]
    exact ⟨_, by simp only [List.append_assoc]; rfl⟩
  exact Nat.lt_of_lt_of_le (by decide) this.length_le

theorem cluster_of_validate {c : Config} (h : c.validate = .ok ()) : 2 ≤ c.clusterSize := by
  rw [Config.validate] at h
  split at h
  · cases h
  · omega

theorem create?_cases (device : Device) :
    (∃ o, OutputCursor.create? device = some o ∧ o.device = device ∧ o.content = []) ∨
      OutputCursor.create? device = none := by
  cases device with
  | absent => exact Or.inr rfl
  | _ => exact Or.inl ⟨_, rfl, rfl, rfl⟩

theorem create_parts {device : Device} {config : Config} (h : create device config = .ok st) :
    config.validate = .ok () ∧ ∃ table o, Table.ofCluster config.clusterSize config.maxGeneration = .ok table ∧
      o.device = device ∧ o.content = config.header ∧ st = ⟨config, table, o, .empty, none, none⟩ := by
  rcases create?_cases device with ⟨o, ho, hd, hempty⟩ | ho
  · cases hv : config.validate with
    | error e => simp [create, ho, hv, Except.mapError, bind, Except.bind] at h
    | ok _ =>
        obtain ⟨table, ht, -⟩ := Table.chained_ofCluster (cluster_of_validate hv) config.maxGeneration
        rcases OutputCursor.append_cases o config.header with ⟨o', ha, hd', hcontent⟩ | ⟨ha, -⟩
        · simp [create, ho, hv, ht, ha, Except.mapError, bind, Except.bind] at h
          exact ⟨rfl, table, o', ht, hd'.trans hd, by rw [hcontent, hempty, List.nil_append], h.symm⟩
        · simp [create, ho, hv, ht, ha, Except.mapError, bind, Except.bind] at h
  · simp [create, ho] at h

/-- A new store is well formed, and nothing has been given out. -/
theorem create_ok {device : Device} {config : Config} (h : create device config = .ok st) :
    st.WellFormed ∧ st.config = config ∧ st.output.device = device ∧ st.output.content = config.header ∧
      ∀ id, st.standing id = .absent := by
  obtain ⟨hv, table, o, ht, hd, hheader, rfl⟩ := create_parts h
  obtain ⟨t, ht', -, hc, hl⟩ := Table.chained_ofCluster (cluster_of_validate hv) config.maxGeneration
  rw [ht] at ht'
  cases ht'
  have hentry : ∀ n, table.used? n = none := fun n => by
    rw [Table.used?, Table.slot?_eq_getElem?, hl, Option.filter_eq_none_iff]
    intro s hs
    obtain rfl := List.mem_singleton.1 (List.mem_of_getElem? hs)
    exact Bool.false_ne_true
  refine ⟨⟨⟨_, hc⟩, by simp [hl], OrderedMap.ascending_empty, fun n => ?_, fun hp => ?_, fun hp => ?_,
    (congrArg (config.header <+: ·) hheader).mpr (List.prefix_refl _), by simp, by simp⟩, rfl, hd, hheader, fun id => ?_⟩
  · constructor
    · rintro ⟨p, ⟨⟩⟩
    · rintro ⟨s, hs, -⟩
      rw [hentry] at hs
      cases hs
  · cases hp.payload
  · cases hp.payload
  · rw [standing_eq hc, hentry]
    rfl

/-! ## Giving out and taking back -/

theorem payload_none (h : st.WellFormed) {n : UInt32} (hn : st.table.used? n.toNat = none) :
    st.payloads.get? n = none := by
  by_contra hq
  obtain ⟨s, hs, -⟩ := (h.payload_iff n).1 (Option.ne_none_iff_exists'.1 hq)
  rw [hn] at hs
  cases hs

theorem reserve_cases (h : st.WellFormed) :
    (∃ id st', reserve st = .ok id st' ∧ st.standing id = .absent ∧ st.Becomes id .pending st') ∨
      reserve st = .error (.table .full) st := by
  obtain ⟨chain, hc⟩ := h.chained
  rcases Table.reserve_entry hc with ⟨id, u, hok, hnone, hu⟩ | hfull
  · have hch : Change st id.number (some (.reserved id.generation)) none [] { st with table := u } := {
      config := rfl
      device := rfl
      content := (List.append_nil _).symm
      table := hu
      payload := fun m => by
        by_cases hm : m = id.number
        · rw [if_pos hm, hm, payload_none h hnone]
        · rw [if_neg hm]
      ascending := h.ascending
      offset_iff := by simp [Slot.reserved]
      place := by simp }
    refine Or.inl ⟨id, _, onTable_ok hok, ?_, hch.becomes h ?_ ?_ ?_ ?_ ?_⟩
    · rw [standing_eq hc, hnone]
      rfl
    · simp [standingAt, Slot.reserved]
    · simp [hnone]
    · rintro s ⟨⟩
      rfl
    · exact fun id' hid' => ⟨hid', by simp⟩
    · exact fun id' hid' => ⟨hid', by simp⟩
  · exact Or.inr (onTable_error hfull)

/-- What is left of the catalog or the info when an identity is deleted. -/
theorem kept_of_reset {x : Option ObjectId} (h : (if x = some id then none else x) = some id') :
    x = some id' ∧ id' ≠ id := by
  split at h
  · cases h
  · rename_i hne
    exact ⟨h, fun heq => hne (heq ▸ h)⟩

theorem delete_live (h : st.WellFormed) (hv : st.standing id ≠ .absent) :
    ∃ out st', delete id st = .ok out st' ∧ st.Becomes id .absent st' := by
  obtain ⟨chain, hc⟩ := h.chained
  obtain ⟨s, hs⟩ := validate_of_standing hv
  obtain ⟨out, u, hok, hu⟩ := Table.release_entry hc hs
  refine ⟨out, _, Operation.bind_of_ok (onTable_ok hok), ?_⟩
  have hch : Change st id.number none none [] { st with
      table := u
      payloads := st.payloads.erase id.number
      catalog := if st.catalog = some id then none else st.catalog
      info := if st.info = some id then none else st.info } := {
    config := rfl
    device := rfl
    content := (List.append_nil _).symm
    table := hu
    payload := fun m => by
      by_cases hm : m = id.number
      · rw [if_pos hm, hm, OrderedMap.get?_erase_self h.ascending]
      · rw [if_neg hm, OrderedMap.get?_erase_of_ne _ hm]
    ascending := OrderedMap.ascending_erase _ h.ascending
    offset_iff := by simp
    place := by simp }
  refine hch.becomes h rfl ?_ (by simp) ?_ ?_
  · intro s' hs'
    obtain ⟨he, hg⟩ := (Table.validate_ok_iff_entry hc).1 hs
    rw [he] at hs'
    cases hs'
    exact hg
  · exact fun id' hid' => ⟨(kept_of_reset hid').1, fun heq => absurd heq (kept_of_reset hid').2⟩
  · exact fun id' hid' => ⟨(kept_of_reset hid').1, fun heq => absurd heq (kept_of_reset hid').2⟩

theorem delete_absent (hv : st.standing id = .absent) : ∃ e, delete id st = .error e st := by
  obtain ⟨e, he⟩ := validate_of_absent hv
  exact ⟨_, Operation.bind_of_error (onTable_error (Table.release_error he))⟩

/-! ## Writing -/

theorem position_pos (h : st.WellFormed) : 0 < st.position := by
  rw [position_eq]
  exact Nat.lt_of_lt_of_le (header_pos st.config) h.header.length_le

/-- Recording a body that has just been appended. -/
theorem recorded_becomes {c : Bytes} {u : Table} {s : Slot} {out : OutputCursor} (h : st.WellFormed)
    (hs : st.table.validate id = .ok s) (hd : out.device = st.output.device)
    (hout : out.content = st.output.content ++ FileText.object id c)
    (hu : Table.EntryChange st.table id.number.toNat (some { s with offset := st.position, dirty := true }) u) :
    st.Becomes id (.written o (FileText.object id c)) { st with
      table := u
      output := out
      payloads := st.payloads.insert id.number ⟨o, (FileText.object id c).length⟩ } := by
  obtain ⟨chain, hc⟩ := h.chained
  obtain ⟨he, hg⟩ := (Table.validate_ok_iff_entry hc).1 hs
  have hpos : st.position ≠ 0 := Nat.ne_of_gt (position_pos h)
  have hch : Change st id.number (some { s with offset := st.position, dirty := true })
      (some ⟨o, (FileText.object id c).length⟩) (FileText.object id c) { st with
        table := u
        output := out
        payloads := st.payloads.insert id.number ⟨o, (FileText.object id c).length⟩ } := {
    config := rfl
    device := hd
    content := hout
    table := hu
    payload := fun m => by
      by_cases hm : m = id.number
      · rw [if_pos hm, hm, OrderedMap.get?_insert_self]
      · rw [if_neg hm, OrderedMap.get?_insert_of_ne _ hm]
    ascending := OrderedMap.ascending_insert _ _ h.ascending
    offset_iff := ⟨fun _ => ⟨_, rfl, hpos⟩, fun _ => ⟨_, rfl⟩⟩
    place := fun s' p he hq => by
      obtain rfl := Option.some.inj he
      obtain rfl := Option.some.inj hq
      simp only [position_eq]
      exact ⟨Nat.le_refl _, Nat.le_refl _⟩ }
  refine hch.becomes h ?_ ?_ ?_ (fun id' hid' => ⟨hid', by simp⟩) (fun id' hid' => ⟨hid', by simp⟩)
  · simp [standingAt, hg, position_eq, hout]
  · intro s' hs'
    rw [he] at hs'
    cases hs'
    exact hg
  · rintro s' ⟨⟩
    exact hg

/-- A body is written under an identity in use, or nothing is: the object cannot be written, or the device
takes no more. -/
theorem appendBody_cases (h : st.WellFormed) (hv : st.standing id ≠ .absent) (o : Object)
    (refs : ReferenceTable) :
    (∃ c st', appendBody id o refs st = .ok st.position st' ∧ o.toBytes (some refs) = .ok c ∧
      st.Becomes id (.written o (FileText.object id c)) st') ∨
    (∃ e, appendBody id o refs st = .error (.object e) st ∧ o.toBytes (some refs) = .error e) ∨
    appendBody id o refs st = .error .device st ∧ st.output.device = .full := by
  cases hb : o.toBytes (some refs) with
  | error e => exact Or.inr (Or.inl ⟨e, by rw [appendBody, hb]; rfl, rfl⟩)
  | ok c =>
      obtain ⟨chain, hc⟩ := h.chained
      obtain ⟨s, hs⟩ := validate_of_standing hv
      rw [appendBody, hb, Operation.bind_of_ok (Operation.ofExcept_apply_ok _ _ _), FileText.object_eq]
      rcases append_cases (FileText.object id c) st with ⟨out, ha, hd, hout⟩ | ⟨ha, hd⟩
      · obtain ⟨u, hok, hu⟩ := Table.setOffset_entry hc hs st.position
        have ht : onTable (Table.setOffset id st.position) { st with output := out } =
            .ok () { st with table := u, output := out } := onTable_ok hok
        exact Or.inl ⟨c, _, (Operation.bind_of_ok ha).trans (Operation.bind_of_ok ht), rfl,
          recorded_becomes h hs hd hout hu⟩
      · exact Or.inr (Or.inr ⟨Operation.bind_of_error ha, hd⟩)

theorem replaceAt_live (hv : st.standing id ≠ .absent) :
    replaceAt id o refs st = appendBody id o refs st := by
  obtain ⟨s, hs⟩ := validate_of_standing hv
  exact Operation.bind_of_ok (checked_ok hs)

theorem replaceAt_absent (hv : st.standing id = .absent) : ∃ e, replaceAt id o refs st = .error (.table e) st := by
  obtain ⟨e, he⟩ := validate_of_absent hv
  exact ⟨e, Operation.bind_of_error (checked_error he)⟩

theorem isPending_of_standing {s : Slot} (h : st.WellFormed) (hs : st.table.validate id = .ok s) :
    s.isPending = true ↔ st.standing id = .pending := by
  have hw := isWritten_iff h id
  rw [isWritten, hs] at hw
  have hv := standing_of_validate hs
  cases hst : st.standing id with
  | absent => exact absurd hst hv
  | pending => simp_all
  | written o b => simp_all

theorem writeAt_pending (h : st.WellFormed) (hv : st.standing id = .pending) :
    writeAt id o refs st = appendBody id o refs st := by
  have hne : st.standing id ≠ .absent := by simp [hv]
  obtain ⟨s, hs⟩ := validate_of_standing hne
  have hp := (isPending_of_standing h hs).2 hv
  refine (Operation.bind_of_ok (checked_ok hs)).trans ?_
  simp only [hp]
  rfl

theorem writeAt_written {b : Bytes} {o' : Object} (h : st.WellFormed) (hv : st.standing id = .written o' b) :
    writeAt id o refs st = .error (.doubleWrite id) st := by
  have hne : st.standing id ≠ .absent := by simp [hv]
  obtain ⟨s, hs⟩ := validate_of_standing hne
  have hp : s.isPending = false := by
    cases hp : s.isPending with
    | false => rfl
    | true => simp [(isPending_of_standing h hs).1 hp] at hv
  refine (Operation.bind_of_ok (checked_ok hs)).trans ?_
  simp only [hp]
  rfl

theorem writeAt_absent (hv : st.standing id = .absent) : ∃ e, writeAt id o refs st = .error (.table e) st := by
  obtain ⟨e, he⟩ := validate_of_absent hv
  exact ⟨e, Operation.bind_of_error (checked_error he)⟩

/-! ## Reading back -/

/-- The store after all bytes that waited have been handed over. -/
def flushed (st : Store) : Store := { st with output := st.output.flushed }

theorem alike_flushed (st : Store) : st.Alike st.flushed :=
  ⟨rfl, rfl, rfl, rfl, rfl, rfl, Cursor.content_flushed _⟩

theorem readBack_written {b : Bytes} (h : st.WellFormed) (hd : st.output.device ≠ .full)
    (hs : st.standing id = .written o b) : readBack id st = .ok b st.flushed := by
  obtain ⟨chain, hc⟩ := h.chained
  unfold standing at hs
  cases hv : st.table.validate id with
  | error e => simp [hv] at hs
  | ok s =>
      cases hp : st.payloads.get? id.number with
      | none => simp [hv, hp] at hs
      | some p =>
          simp only [hv, hp, Standing.written.injEq] at hs
          have hwithin := (h.within ⟨((Table.validate_ok_iff_entry hc).1 hv).1, hp⟩).2
          have hread := OutputCursor.readAt_within hd hwithin
          rw [hs.2] at hread
          have hpay : st.payload id = .ok p := by rw [payload, hp]
          rw [readBack, Operation.bind_of_ok (checked_ok hv), Operation.bind_of_ok (Operation.get_apply st), hpay,
            Operation.bind_of_ok (Operation.ofExcept_apply_ok _ _ _)]
          exact onOutput_ok hread

theorem readBack_pending (h : st.standing id = .pending) : readBack id st = .error (.notWritten id) st := by
  unfold standing at h
  cases hv : st.table.validate id with
  | error e => simp [hv] at h
  | ok s =>
      cases hp : st.payloads.get? id.number with
      | none =>
          have hpay : st.payload id = .error (.notWritten id) := by rw [payload, hp]
          rw [readBack, Operation.bind_of_ok (checked_ok hv), Operation.bind_of_ok (Operation.get_apply st), hpay]
          rfl
      | some p => simp [hv, hp] at h

theorem readBack_absent (h : st.standing id = .absent) : ∃ e, readBack id st = .error (.table e) st := by
  obtain ⟨e, he⟩ := validate_of_absent h
  exact ⟨e, Operation.bind_of_error (checked_error he)⟩

/-- Only a full device gives less back than has been written. -/
theorem readBack_cases (h : st.WellFormed) (hd : st.output.device ≠ .full) (id : ObjectId) :
    (∃ b, readBack id st = .ok b st.flushed) ∨ ∃ e, readBack id st = .error e st := by
  cases hs : st.standing id with
  | absent =>
      obtain ⟨e, he⟩ := readBack_absent hs
      exact Or.inr ⟨_, he⟩
  | pending => exact Or.inr ⟨_, readBack_pending hs⟩
  | written o b => exact Or.inl ⟨b, readBack_written h hd hs⟩

theorem next_onOutput_readAt (st : Store) (offset length : Nat) :
    (onOutput (OutputCursor.readAt offset length)).next st = st ∨
      (onOutput (OutputCursor.readAt offset length)).next st = st.flushed := by
  rcases OutputCursor.readAt_cases st.output offset length with ⟨b, -, hok⟩ | ⟨-, herr⟩ | ⟨herr, -⟩
  · exact Or.inr (Operation.next_ok (onOutput_ok hok))
  · exact Or.inr (Operation.next_error (onOutput_error herr))
  · exact Or.inl (Operation.next_error (onOutput_error herr))

/-- Whatever comes of it, reading back changes at most which bytes wait. -/
theorem alike_readBack (st : Store) (id : ObjectId) : st.Alike ((readBack id).next st) := by
  have hnext : (readBack id).next st = st ∨ (readBack id).next st = st.flushed := by
    cases hv : st.table.validate id with
    | error e => exact Or.inl (Operation.next_error (Operation.bind_of_error (checked_error hv)))
    | ok s =>
        cases hp : st.payload id with
        | error e =>
            refine Or.inl (Operation.next_error (e := e) ?_)
            rw [readBack, Operation.bind_of_ok (checked_ok hv), Operation.bind_of_ok (Operation.get_apply st), hp]
            rfl
        | ok p =>
            have hread : readBack id st = onOutput (OutputCursor.readAt s.offset p.length) st := by
              rw [readBack, Operation.bind_of_ok (checked_ok hv), Operation.bind_of_ok (Operation.get_apply st), hp,
                Operation.bind_of_ok (Operation.ofExcept_apply_ok _ _ _)]
            rw [Operation.next, hread]
            exact next_onOutput_readAt st s.offset p.length
  rcases hnext with hnext | hnext
  · rw [hnext]
    exact .refl st
  · rw [hnext]
    exact alike_flushed st

theorem alike_of_readBack {b : Bytes} (h : readBack id st = .ok b st') : st.Alike st' :=
  Operation.next_ok h ▸ alike_readBack st id

theorem alike_of_readBack_error {e : StoreError} (h : readBack id st = .error e st') : st.Alike st' :=
  Operation.next_error h ▸ alike_readBack st id

/-! ## The catalog and the info -/

/-- Naming other objects in the trailer changes no standing. -/
theorem renamed_becomes (h : st.WellFormed) {catalog info : Option ObjectId}
    (hcat : ∀ id, catalog = some id → st.standing id ≠ .absent)
    (hinfo : ∀ id, info = some id → st.standing id ≠ .absent) (id : ObjectId) :
    st.Becomes id (st.standing id) { st with catalog := catalog, info := info } where
  wellFormed := { h with
    within := fun hp => h.within ⟨hp.entry, hp.payload⟩
    disjoint := fun hp hp' => h.disjoint ⟨hp.entry, hp.payload⟩ ⟨hp'.entry, hp'.payload⟩
    catalog := hcat
    info := hinfo }
  config := rfl
  device := rfl
  standing := fun id' => by
    split
    · rename_i heq
      rw [heq]
      rfl
    · rfl

theorem setCatalog_live (h : st.WellFormed) (hv : st.standing id ≠ .absent) :
    ∃ st', setCatalog id st = .ok () st' ∧ st.Becomes id (st.standing id) st' := by
  obtain ⟨s, hs⟩ := validate_of_standing hv
  refine ⟨_, Operation.bind_of_ok (checked_ok hs), renamed_becomes h ?_ h.info id⟩
  rintro id' ⟨⟩
  exact hv

theorem setCatalog_absent (hv : st.standing id = .absent) : ∃ e, setCatalog id st = .error (.table e) st := by
  obtain ⟨e, he⟩ := validate_of_absent hv
  exact ⟨e, Operation.bind_of_error (checked_error he)⟩

theorem setInfo_live (h : st.WellFormed) (hv : st.standing id ≠ .absent) :
    ∃ st', setInfo id st = .ok () st' ∧ st.Becomes id (st.standing id) st' := by
  obtain ⟨s, hs⟩ := validate_of_standing hv
  refine ⟨_, Operation.bind_of_ok (checked_ok hs), renamed_becomes h h.catalog ?_ id⟩
  rintro id' ⟨⟩
  exact hv

theorem setInfo_absent (hv : st.standing id = .absent) : ∃ e, setInfo id st = .error (.table e) st := by
  obtain ⟨e, he⟩ := validate_of_absent hv
  exact ⟨e, Operation.bind_of_error (checked_error he)⟩

end PdfStore.Store
