import Mathlib.Data.List.Infix
import PdfStore.Proofs.StoreRuns

/-!
# The file that a closed store leaves

In a store that has been created, and not opened from a file, every slot has changed, so the section of
its table has one segment. Closing appends the section and the trailer to the bodies; what has been said
of the places of the bodies holds for the file.
-/

namespace PdfStore

/-! ## The section of the table -/

theorem SlotRun.ofMarks_replicate (n k : Nat) : ofMarks n (List.replicate (k + 1) true) = [⟨n, k + 1⟩] := by
  induction k generalizing n with
  | zero => rfl
  | succ k ih =>
      rw [List.replicate_succ, ofMarks, ih]
      simp only [if_pos]

namespace Table

variable {t : Table}

theorem segments_of_dirty (h : ∀ s ∈ t.toList, s.dirty = true) (hpos : 0 < t.size) :
    t.segments = [⟨0, t.size⟩] := by
  obtain ⟨k, hk⟩ := Nat.exists_eq_succ_of_ne_zero (Nat.ne_of_gt hpos)
  have hmarks : t.toList.map Slot.dirty = List.replicate (k + 1) true :=
    List.eq_replicate_iff.2 ⟨by rw [List.length_map, length_toList, hk], by simpa using h⟩
  rw [segments, hmarks, SlotRun.ofMarks_replicate, hk]

theorem segmentText_all (t : Table) :
    t.segmentText ⟨0, t.size⟩ = s!"0 {t.size}\n" ++ String.join (t.toList.map Slot.line) := by
  have hlines : ((List.range' 0 t.size).map fun n => ((t.slot? n).getD default).line) =
      t.toList.map Slot.line := by
    refine List.ext_getElem (by simp [length_toList]) fun i h₁ h₂ => ?_
    have hi : i < t.toList.length := by simpa using h₂
    simp [slot?_eq_getElem?, List.getElem?_eq_getElem hi]
  have hfirst : toString 0 ++ toString " " = toString "0 " := by decide
  rw [segmentText, hlines, hfirst]

/-- The section of a table whose slots have all changed. -/
theorem written_of_dirty (h : ∀ s ∈ t.toList, s.dirty = true) (hpos : 0 < t.size) :
    t.written = FileText.table t.toList := by
  rw [written, segments_of_dirty h hpos, List.map_singleton, segmentText_all, ← FileText.table_eq, length_toList]
  simp

/-- There is always the head of the free chain. -/
theorem Chained.size_pos {chain : List Nat} (h : t.Chained chain) : 0 < t.size := by
  obtain ⟨s, hs, -⟩ := h.head
  exact lt_size_of_slot? hs

/-- What a file tells of the slots. -/
def entries (t : Table) : List Slot := t.toList.map Slot.listed

@[simp] theorem length_entries (t : Table) : t.entries.length = t.size := by
  rw [entries, List.length_map, length_toList]

theorem not_isPending (h : t.pending = []) {n : Nat} {s : Slot} (hs : t.slot? n = some s) :
    s.isPending = false := by
  rw [slot?_eq_getElem?] at hs
  rw [pending, identities, List.filterMap_eq_nil_iff] at h
  have := h (s, n) (List.mk_mem_zipIdx_iff_getElem?.2 hs)
  cases hp : s.isPending with
  | false => rfl
  | true => simp [hp] at this

end Table

namespace Store

variable {st : Store} {report : CloseReport}

/-! ## Closing -/

theorem checkClosable_ok (h : st.checkClosable = .ok ()) :
    ∃ catalog, st.catalog = some catalog ∧ st.table.pending = [] := by
  unfold checkClosable at h
  cases hc : st.catalog with
  | none => simp [hc] at h
  | some catalog =>
      cases hp : st.table.pending with
      | nil => exact ⟨catalog, rfl, rfl⟩
      | cons first rest => simp [hc, hp] at h

/-- The file that a store in memory leaves: its bodies, the section of the table and the trailer. -/
def file (st : Store) (catalog : ObjectId) : Bytes :=
  st.output.content ++ Bytes.ofString st.table.written ++
    Bytes.ofString (trailer st.table.size catalog st.info st.position)

theorem content_prefix_file (st : Store) (catalog : ObjectId) : st.output.content <+: st.file catalog := by
  rw [file, List.append_assoc]
  exact List.prefix_append _ _

/-- What stands behind the bodies. -/
theorem drop_file (h : st.WellFormed) (catalog : ObjectId) : (st.file catalog).drop st.position = Bytes.ofString
    (FileText.table st.table.entries ++ FileText.trailer st.table.entries.length catalog st.info st.position) := by
  obtain ⟨chain, hc⟩ := h.chained
  rw [file, List.append_assoc, position_eq, List.drop_left, Table.written_of_dirty h.dirty hc.size_pos,
    FileText.trailer_eq, Bytes.ofString_append, Table.length_entries, Table.entries, FileText.table_listed]

/-- The entries are read back from the file. -/
theorem entries?_file (h : st.WellFormed) (catalog : ObjectId) :
    FileText.entries? ((st.file catalog).drop st.position) = some st.table.entries := by
  rw [drop_file h, Bytes.ofString_append, FileText.entries?_table, Table.entries, List.map_map]
  rfl

/-- The report of a store that is finished. Only a full device refuses what is added, or does not give up what waits. -/
theorem finish_cases (st : Store) (catalog : ObjectId) : (∃ st', finish catalog st =
    .ok ⟨st.table.size, st.table.segments.length, st.position, ⟨st.output.device, st.file catalog⟩⟩ st') ∨
      (∃ st', finish catalog st = .error .device st') ∧ st.output.device = .full := by
  rw [finish, Operation.bind_of_ok (Operation.get_apply st)]
  rcases append_cases (Bytes.ofString st.table.written) st with ⟨o, hsection, hd, hcontent⟩ | ⟨hsection, hfull⟩
  · rw [Operation.bind_of_ok hsection]
    rcases append_cases (Bytes.ofString (trailer st.table.size catalog st.info st.position)) { st with output := o }
      with ⟨o', htrailer, hd', hcontent'⟩ | ⟨htrailer, hfull⟩
    · rw [Operation.bind_of_ok htrailer]
      rcases OutputCursor.finish_cases o' with hok | ⟨herr, hfull⟩
      · have hend : (⟨o'.device, o'.content⟩ : Output) = ⟨st.output.device, st.file catalog⟩ := by
          rw [hd', hd, hcontent', hcontent, file]
        rw [hend] at hok
        exact Or.inl ⟨_, Operation.bind_of_ok (onOutput_ok hok)⟩
      · exact Or.inr ⟨⟨_, Operation.bind_of_error (onOutput_error herr)⟩, hd ▸ hd' ▸ hfull⟩
    · exact Or.inr ⟨⟨_, Operation.bind_of_error htrailer⟩, hd ▸ hfull⟩
  · exact Or.inr ⟨⟨_, Operation.bind_of_error hsection⟩, hfull⟩

theorem finish_memory (hd : st.output.device = .memory) (catalog : ObjectId) : ∃ st', finish catalog st =
    .ok ⟨st.table.size, st.table.segments.length, st.position, ⟨.memory, st.file catalog⟩⟩ st' := by
  rcases finish_cases st catalog with hok | ⟨-, hfull⟩
  · rwa [hd] at hok
  · rw [hd] at hfull
    cases hfull

theorem close_ok (h : st.close = .ok report) : ∃ catalog, st.catalog = some catalog ∧ st.table.pending = [] ∧
    report = ⟨st.table.size, st.table.segments.length, st.position, ⟨st.output.device, st.file catalog⟩⟩ := by
  cases hc : st.checkClosable with
  | error e => simp [close, hc, bind, Except.bind] at h
  | ok _ =>
      obtain ⟨catalog, hcat, hp⟩ := checkClosable_ok hc
      refine ⟨catalog, hcat, hp, ?_⟩
      cases hf : finish catalog st with
      | error e st' => simp [close, hc, hcat, Operation.answer?, hf, bind, Except.bind] at h
      | ok report' st' =>
          simp [close, hc, hcat, Operation.answer?, hf, bind, Except.bind, pure, Except.pure] at h
          rcases finish_cases st catalog with ⟨st'', hok⟩ | ⟨⟨st'', herr⟩, -⟩
          · rw [hf] at hok
            cases hok
            exact h.symm
          · rw [hf] at herr
            cases herr

theorem close_memory (h : st.close = .ok report) (hd : st.output.device = .memory) :
    ∃ catalog, st.catalog = some catalog ∧ st.table.pending = [] ∧
      report = ⟨st.table.size, st.table.segments.length, st.position, ⟨.memory, st.file catalog⟩⟩ :=
  hd ▸ close_ok h

/-! ## The bodies -/

/-- In a store that can be closed, a slot in use has a body. -/
theorem standing_of_closable (h : st.WellFormed) (hp : st.table.pending = []) {id : ObjectId} {s : Slot}
    (hs : st.table.validate id = .ok s) : ∃ p, st.Placed id.number s p ∧
      st.standing id = .written p.object ((st.output.content.drop s.offset).take p.length) := by
  obtain ⟨chain, hc⟩ := h.chained
  obtain ⟨hentry, hg⟩ := (Table.validate_ok_iff_entry hc).1 hs
  obtain ⟨hslot, huse⟩ := Table.used?_eq_some.1 hentry
  have hoff : s.offset ≠ 0 := by
    have := Table.not_isPending hp hslot
    simpa [Slot.isPending, huse] using this
  obtain ⟨p, hpay⟩ := (h.payload_iff id.number).2 ⟨s, hentry, hoff⟩
  refine ⟨p, ⟨hentry, hpay⟩, ?_⟩
  rw [standing_eq hc, hentry, hpay]
  simp [standingAt, hg]

/-- The body of the last write to the identity that an entry of the table names. -/
def entryBody (log : Log) (n : Nat) (s : Slot) : Option Bytes :=
  let id : ObjectId := ⟨UInt32.ofNat n, s.generation⟩
  (lastWrite log id).bind fun w => (w.1.toBytes (some w.2)).toOption.map (FileText.object id)

/-- A file that is consistent: the table and the trailer stand behind the bodies of the entries in use, the
free entries form one chain, and the trailer names entries in use. -/
structure Consistent (config : Config) (log : Log) (report : CloseReport) (slots : List Slot)
    (catalog : ObjectId) (info : Option ObjectId) : Prop where
  header : FileText.header config <+: report.output.content
  size : report.size = slots.length
  numbers : slots.length ≤ 4294967296
  segments : report.segments = 1
  rest : report.output.content.drop report.offset =
    Bytes.ofString (FileText.table slots ++ FileText.trailer slots.length catalog info report.offset)
  /-- The entries are those that are read back from the file. -/
  entries : FileText.entries? (report.output.content.drop report.offset) = some slots
  body : ∀ {n s}, slots[n]? = some s → s.inUse = true → ∃ b, entryBody log n s = some b ∧
    b <+: report.output.content.drop s.offset ∧
    (FileText.header config).length ≤ s.offset ∧ s.offset + b.length ≤ report.offset
  disjoint : ∀ {n n' s s' b b'}, slots[n]? = some s → s.inUse = true → slots[n']? = some s' →
    s'.inUse = true → n ≠ n' → entryBody log n s = some b → entryBody log n' s' = some b' →
    s.offset + b.length ≤ s'.offset ∨ s'.offset + b'.length ≤ s.offset
  free : ∃ chain, Table.Linked (fun n => (slots[n]?.map Slot.offset).getD 0) 0 chain ∧ (0 :: chain).Nodup ∧
    ∀ n, n ∈ 0 :: chain ↔ ∃ s, slots[n]? = some s ∧ s.inUse = false
  root : ∃ s, slots[catalog.number.toNat]? = some s ∧ s.inUse = true ∧ s.generation = catalog.generation
  info : ∀ id, info = some id →
    ∃ s, slots[id.number.toNat]? = some s ∧ s.inUse = true ∧ s.generation = id.generation

variable {first : Store} {log : Log}

theorem getElem?_entries {t : Table} {n : Nat} {s : Slot} :
    t.entries[n]? = some s ↔ ∃ s', t.toList[n]? = some s' ∧ s'.listed = s := by
  rw [Table.entries, List.getElem?_map, Option.map_eq_some_iff]

/-- An entry in use has the body of the last write. -/
theorem entry_placed (h : Recorded first log st) (hp : st.table.pending = []) {n : Nat} {s : Slot}
    (hs : st.table.entries[n]? = some s) (hu : s.inUse = true) : ∃ b s' p, entryBody log n s = some b ∧
      (UInt32.ofNat n).toNat = n ∧ st.Placed (UInt32.ofNat n) s' p ∧ s.offset = s'.offset ∧ b.length = p.length ∧
      b = (st.output.content.drop s.offset).take p.length := by
  obtain ⟨chain, hc⟩ := h.wellFormed.chained
  obtain ⟨s', hs', rfl⟩ := getElem?_entries.1 hs
  rw [← Table.slot?_eq_getElem?] at hs'
  have hn : (UInt32.ofNat n).toNat = n :=
    UInt32.toNat_ofNat_of_lt' (Nat.lt_of_lt_of_le (Table.lt_size_of_slot? hs') hc.size_le)
  have hv : st.table.validate ⟨UInt32.ofNat n, s'.generation⟩ = .ok s' :=
    (Table.validate_ok_iff_entry hc).2 ⟨Table.used?_eq_some.2 ⟨by rwa [hn], hu⟩, rfl⟩
  obtain ⟨p, hplaced, hst⟩ := standing_of_closable h.wellFormed hp hv
  obtain ⟨refs, c, hw, hbytes, hb⟩ := h.body hst
  have hwithin := (h.wellFormed.within hplaced).2
  refine ⟨_, s', p, ?_, hn, hplaced, rfl, ?_, rfl⟩
  · simp [entryBody, Slot.listed, hw, hbytes, hb, Except.toOption]
  · simp only [Slot.listed, List.length_take, List.length_drop]
    omega

theorem entry_of_standing {id : ObjectId} (h : st.standing id ≠ .absent) :
    ∃ s, st.table.entries[id.number.toNat]? = some s ∧ s.inUse = true ∧ s.generation = id.generation := by
  obtain ⟨s, hs⟩ := validate_of_standing h
  obtain ⟨hslot, -, hu, hg⟩ := Table.validate_ok.1 hs
  exact ⟨s.listed, getElem?_entries.2 ⟨s, Table.slot?_eq_getElem? st.table _ ▸ hslot, rfl⟩, hu, hg⟩

/-- The free entries are visited once each from entry zero on. -/
theorem free_entries {t : Table} {chain : List Nat} (h : t.Chained chain) :
    Table.Linked (fun n => (t.entries[n]?.map Slot.offset).getD 0) 0 chain ∧ (0 :: chain).Nodup ∧
      ∀ n, n ∈ 0 :: chain ↔ ∃ s, t.entries[n]? = some s ∧ s.inUse = false := by
  have hnext : (fun n => (t.entries[n]?.map Slot.offset).getD 0) = t.offset := by
    funext n
    rw [Table.offset, Table.slot?_eq_getElem?, Table.entries, List.getElem?_map, Option.map_map]
    rfl
  have hfree : ∀ n, (∃ s, t.entries[n]? = some s ∧ s.inUse = false) ↔ ∃ s, t.slot? n = some s ∧ s.inUse = false := by
    intro n
    simp only [getElem?_entries, Table.slot?_eq_getElem?]
    constructor
    · rintro ⟨_, ⟨s, hs, rfl⟩, hf⟩
      exact ⟨s, hs, hf⟩
    · rintro ⟨s, hs, hf⟩
      exact ⟨_, ⟨s, hs, rfl⟩, hf⟩
  refine ⟨hnext ▸ h.linked, List.nodup_cons.2 ⟨h.zero_not_mem, h.nodup⟩, fun n => ?_⟩
  rw [List.mem_cons, h.mem_iff, hfree]
  by_cases hn : n = 0
  · rw [hn]
    exact ⟨fun _ => h.head, fun _ => Or.inl rfl⟩
  · exact ⟨fun hf => (hf.resolve_left hn).2, fun hf => Or.inr ⟨hn, hf⟩⟩

theorem consistent_close {config : Config} (h₀ : create .memory config = .ok first)
    (hrun : Runs perform first log st) (hclose : st.close = .ok report) :
    ∃ slots catalog, slots.length = st.table.size ∧ st.catalog = some catalog ∧
      Consistent config log report slots catalog st.info := by
  obtain ⟨hwf₀, hconfig, hmemory, -, habsent⟩ := create_ok h₀
  have h := recorded_run hwf₀ (fun id => by simp [habsent id]) hrun
  obtain ⟨chain, hc⟩ := h.wellFormed.chained
  have hdevice : st.output.device = .memory := h.device.trans hmemory
  obtain ⟨catalog, hcat, hp, rfl⟩ := close_memory hclose hdevice
  have hprefix := content_prefix_file st catalog
  have hheader : FileText.header config = st.config.header := by
    rw [h.config, hconfig, FileText.header_eq]
  refine ⟨st.table.entries, catalog, st.table.length_entries, hcat, ?_⟩
  constructor
  case header => exact hheader ▸ h.wellFormed.header.trans hprefix
  case size => exact st.table.length_entries.symm
  case numbers => exact st.table.length_entries ▸ hc.size_le
  case segments =>
    simp only [Table.segments_of_dirty h.wellFormed.dirty hc.size_pos]
    rfl
  case rest => exact drop_file h.wellFormed catalog
  case entries => exact entries?_file h.wellFormed catalog
  case body =>
    intro n s hs hu
    obtain ⟨b, s', p, hb, -, hplaced, hoffset, hlen, hbytes⟩ := entry_placed h hp hs hu
    obtain ⟨hlow, hhigh⟩ := h.wellFormed.within hplaced
    refine ⟨b, hb, ?_, hheader ▸ hoffset ▸ hlow, ?_⟩
    · rw [hbytes]
      exact (List.take_prefix _ _).trans (List.IsPrefix.drop hprefix _)
    · rw [hoffset, hlen, position_eq]
      exact hhigh
  case disjoint =>
    intro n n' s s' b b' hs hu hs' hu' hne hb hb'
    obtain ⟨_, _, p, h₁, hn, hplaced, hoffset, hlen, -⟩ := entry_placed h hp hs hu
    obtain ⟨_, _, p', h₁', hn', hplaced', hoffset', hlen', -⟩ := entry_placed h hp hs' hu'
    rw [hb] at h₁
    rw [hb'] at h₁'
    cases h₁
    cases h₁'
    rw [hlen, hlen', hoffset, hoffset']
    exact h.wellFormed.disjoint hplaced hplaced' fun heq => hne (hn ▸ hn' ▸ congrArg UInt32.toNat heq)
  case free => exact ⟨chain, free_entries hc⟩
  case root => exact entry_of_standing (h.wellFormed.catalog catalog hcat)
  case info => exact fun id hid => entry_of_standing (h.wellFormed.info id hid)

theorem consistent_close_after_rewrite : ∃ first log st report slots catalog,
    create .memory ⟨"1.4", true, 2, 2⟩ = .ok first ∧ Runs perform first log st ∧
      log.map Event.call = [.replaceAt ⟨1, 0⟩ (.array [.indirect ⟨0⟩, .null]) fun _ => some ⟨3, 0⟩,
        .write (.boolean true) fun _ => none, .setInfo ⟨1, 0⟩, .setCatalog ⟨3, 0⟩, .delete ⟨2, 0⟩,
        .write (.name "Catalog") fun _ => none, .write .null fun _ => none,
        .write (.boolean false) fun _ => none] ∧
      st.close = .ok report ∧ slots.length = st.table.size ∧ st.catalog = some catalog ∧
      Consistent ⟨"1.4", true, 2, 2⟩ log report slots catalog st.info := by
  let calls : List Call := [.write (.boolean false) fun _ => none, .write .null fun _ => none,
    .write (.name "Catalog") fun _ => none, .delete ⟨2, 0⟩, .setCatalog ⟨3, 0⟩, .setInfo ⟨1, 0⟩,
    .write (.boolean true) fun _ => none,
    .replaceAt ⟨1, 0⟩ (.array [.indirect ⟨0⟩, .null]) fun _ => some ⟨3, 0⟩]
  have hok : (do (Operation.after perform calls (← create .memory ⟨"1.4", true, 2, 2⟩)).close).isOk = true := by
    decide +kernel
  cases h₀ : create .memory ⟨"1.4", true, 2, 2⟩ with
  | error e => simp [h₀, bind, Except.bind, Except.isOk, Except.toBool] at hok
  | ok first =>
      cases hclose : (Operation.after perform calls first).close with
      | error e => simp [h₀, hclose, bind, Except.bind, Except.isOk, Except.toBool] at hok
      | ok report =>
          have hrun := runs_events perform calls first
          obtain ⟨slots, catalog, h⟩ := consistent_close h₀ hrun hclose
          exact ⟨first, _, _, report, slots, catalog, rfl, hrun, Operation.map_call_events perform calls first, hclose, h⟩

end Store

end PdfStore
