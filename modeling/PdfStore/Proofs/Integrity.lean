import PdfStore.Proofs.ClosedFile
import PdfStore.Proofs.SessionHistory

/-!
# References in closed files

The file that a store in memory leaves holds, for every reference bound to it, an object written to the
reference, and what the object refers to are entries of the same file. No object may have been deleted from
the store: what has been written names identities that are given out again afterwards.
-/

namespace PdfStore

/-- An identity has this entry in a table. -/
structure Slot.Serves (e : Slot) (slots : List Slot) (id : ObjectId) : Prop where
  entry : slots[id.number.toNat]? = some e
  inUse : e.inUse = true
  generation : e.generation = id.generation

/-- A file with this table in which every reference that is bound has one of its objects, written with the
identities that are bound, all of which have entries. -/
structure CloseReport.Intact (report : CloseReport) (slots : List Slot) (refs : ReferenceTable)
    (objects : Reference → Object → Prop) : Prop where
  table : Bytes.ofString (FileText.table slots) <+: report.output.content.drop report.offset
  /-- The entries are those that are read back from the file. -/
  entries : FileText.entries? (report.output.content.drop report.offset) = some slots
  body : ∀ {r id}, refs r = some id → ∃ (e : Slot) (o : Object) (c : Bytes), e.Serves slots id ∧ objects r o ∧
    o.toBytes (some refs) = .ok c ∧ FileText.object id c <+: report.output.content.drop e.offset ∧
    ∀ q ∈ o.references, ∃ id' e', refs q = some id' ∧ Slot.Serves e' slots id'

namespace Store

variable {st : Store} {id : ObjectId} {o : Object} {b : Bytes}

theorem serves_of_standing (h : st.standing id ≠ .absent) : ∃ e : Slot, e.Serves st.table.entries id := by
  obtain ⟨e, hentry, huse, hg⟩ := entry_of_standing h
  exact ⟨e, hentry, huse, hg⟩

/-- In the file of a store that can be closed, a body stands where the entry says. -/
theorem body_in_file (h : st.WellFormed) (hp : st.table.pending = []) (hv : st.standing id ≠ .absent)
    (catalog : ObjectId) : ∃ (e : Slot) (o : Object) (b : Bytes), e.Serves st.table.entries id ∧
      st.standing id = .written o b ∧ b <+: (st.file catalog).drop e.offset := by
  obtain ⟨e, hvalid⟩ := validate_of_standing hv
  obtain ⟨p, -, hst⟩ := standing_of_closable h hp hvalid
  obtain ⟨hslot, -, huse, hg⟩ := Table.validate_ok.1 hvalid
  refine ⟨e.listed, p.object, _, ⟨?_, huse, hg⟩, hst, ?_⟩
  · exact getElem?_entries.2 ⟨e, Table.slot?_eq_getElem? st.table _ ▸ hslot, rfl⟩
  · exact (List.take_prefix _ _).trans (List.IsPrefix.drop (content_prefix_file st catalog) _)

end Store

namespace Session

variable {s t : Session} {i : StoreId} {log : Log} {report : CloseReport}

/-- The file of a store created in memory, from which nothing has been deleted, is intact whatever the session
has been through. -/
theorem intact_close {filters : Registry} (hrun : Runs perform (ofFilters filters) log s)
    (hroom : ∀ ev ∈ log, fills ev = false) (hnew : ∃ ev ∈ log, created? ev = some i)
    (hkept : ∀ ev ∈ log, deletedFrom? ev ≠ some i) (hclose : close i s = .ok report t) :
    ∃ st, s.store? i = some st ∧
      report.Intact st.table.entries (s.bindings.view i) fun r o => o ∈ contenders log r := by
  have h := traced_run hrun hroom
  rcases close_cases h.wellFormed i with ⟨st, u, hst, hcl, -⟩ | ⟨e, he⟩
  · rw [hclose] at hcl
    obtain ⟨hok, -⟩ := Operation.ofExcept_ok hcl.symm
    obtain ⟨ev, hev, hcreate⟩ := hnew
    obtain ⟨catalog, -, hp, rfl⟩ := Store.close_memory hok ((h.created hev hcreate).2 st hst)
    have hwf := h.wellFormed.stores hst
    have hlive : ∀ {q id}, s.bindings.view i q = some id → st.standing id ≠ .absent := fun hv =>
      place_of_view hst hv ▸ h.wellFormed.bound hv
    refine ⟨st, hst, ?_, Store.entries?_file hwf catalog, fun {r id} hv => ?_⟩
    · rw [Store.drop_file hwf, Bytes.ofString_append]
      exact List.prefix_append _ _
    · obtain ⟨e, o, b, hserves, hstand, hbody⟩ := Store.body_in_file hwf hp (hlive hv) catalog
      have hplace : s.place i r = .written o b := (place_of_view hst hv).trans hstand
      obtain ⟨hrefs, c, hc, hb⟩ := h.faithful hkept hv hplace
      refine ⟨e, o, c, hserves, h.held hplace, hc, hb ▸ hbody, fun q hq => ?_⟩
      obtain ⟨id', hv'⟩ := Option.isSome_iff_exists.1 (hrefs q hq)
      obtain ⟨e', hserves'⟩ := Store.serves_of_standing (hlive hv')
      exact ⟨id', e', hv', hserves'⟩
  · rw [hclose] at he
    cases he

/-- Two objects that refer to each other, one of them written again, in the store that they have been taken
along to by naming the catalog. -/
theorem intact_close_of_cycle : ∃ log s t report, Runs perform (ofFilters .standard) log s ∧
    log.map Event.call = [.write ⟨1⟩ (.array [.indirect ⟨0⟩, .null]), .setCatalog ⟨1⟩ ⟨0⟩,
      .write ⟨1⟩ (.indirect ⟨0⟩), .write ⟨0⟩ (.array [.indirect ⟨1⟩]), .newReferenceIn [⟨0⟩],
      .newReferenceIn [⟨0⟩], .createStore .memory ⟨"1.4", true, 2, 2⟩,
      .createStore .memory ⟨"1.4", true, 2, 2⟩] ∧
    (∀ ev ∈ log, fills ev = false) ∧ (∃ ev ∈ log, created? ev = some ⟨1⟩) ∧
    (∀ ev ∈ log, deletedFrom? ev ≠ some ⟨1⟩) ∧ close ⟨1⟩ s = .ok report t ∧ ∃ st, s.store? ⟨1⟩ = some st ∧
      report.Intact st.table.entries (s.bindings.view ⟨1⟩) fun r o => o ∈ contenders log r := by
  let calls : List Call := [.createStore .memory ⟨"1.4", true, 2, 2⟩, .createStore .memory ⟨"1.4", true, 2, 2⟩,
    .newReferenceIn [⟨0⟩], .newReferenceIn [⟨0⟩], .write ⟨0⟩ (.array [.indirect ⟨1⟩]),
    .write ⟨1⟩ (.indirect ⟨0⟩), .setCatalog ⟨1⟩ ⟨0⟩, .write ⟨1⟩ (.array [.indirect ⟨0⟩, .null])]
  have hrun := runs_events perform calls (ofFilters .standard)
  have hroom : ∀ ev ∈ Operation.events perform calls (ofFilters .standard), fills ev = false := by
    decide +kernel
  have hnew : ∃ ev ∈ Operation.events perform calls (ofFilters .standard), created? ev = some ⟨1⟩ := by
    decide +kernel
  have hkept : ∀ ev ∈ Operation.events perform calls (ofFilters .standard), deletedFrom? ev ≠ some ⟨1⟩ := by
    decide +kernel
  have hok : ((close ⟨1⟩).outcome (Operation.after perform calls (ofFilters .standard))).isOk = true := by
    decide +kernel
  cases hclose : close ⟨1⟩ (Operation.after perform calls (ofFilters .standard)) with
  | error e t =>
      rw [Operation.outcome_error hclose] at hok
      cases hok
  | ok report t =>
      exact ⟨_, _, t, report, hrun, Operation.map_call_events perform calls _, hroom, hnew, hkept, hclose,
        intact_close hrun hroom hnew hkept hclose⟩

/-! ## A write that stops half-way -/

/-- The object of the last successful write to a reference. -/
def lastWrite (log : Log) (r : Reference) : Option Object :=
  ((log.filterMap written?).find? fun w => w.1 = r).map Prod.snd

/-- Whether an object stands in a file where the entry of an identity says. -/
def standsAt (report : CloseReport) (slots : List Slot) (refs : ReferenceTable) (id : ObjectId)
    (object : Option Object) : Bool :=
  match object, slots[id.number.toNat]? with
  | some o, some e =>
    match o.toBytes (some refs) with
    | .ok c => (FileText.object id c).isPrefixOf (report.output.content.drop e.offset)
    | .error _ => false
  | _, _ => false

/-- The same of the file that closing a store leaves, with the entries that are read back from it. -/
def closesWith (i : StoreId) (id : ObjectId) (object : Option Object) (s : Session) : Bool :=
  match close i s with
  | .ok report _ =>
    match FileText.entries? (report.output.content.drop report.offset) with
    | some slots => standsAt report slots (s.bindings.view i) id object
    | none => true
  | .error _ _ => true

theorem standsAt_of_intact {slots : List Slot} {refs : ReferenceTable} {last : Reference → Option Object}
    {r : Reference} {id : ObjectId} (h : report.Intact slots refs fun r o => last r = some o)
    (hv : refs r = some id) : standsAt report slots refs id (last r) = true := by
  obtain ⟨e, o, c, hserves, ho, hc, hbody, -⟩ := h.body hv
  simp only [standsAt, ho, hserves.entry, hc]
  exact List.isPrefixOf_iff_prefix.2 hbody

/-- A store may hold an object of a write that another store had no room for, and not that of the last
write that succeeded. -/
theorem not_intact_lastWrite : ∃ log s t report slots, Runs perform (ofFilters .standard) log s ∧
    log.map Event.call = [.setCatalog ⟨0⟩ ⟨0⟩, .write ⟨0⟩ (.boolean true),
      .writeNew ⟨1⟩ (.string ⟨List.replicate 8130 97, .literal⟩), .write ⟨0⟩ (.boolean false),
      .newReferenceIn [⟨0⟩, ⟨1⟩], .createStore .full ⟨"1.4", false, 2, 2⟩,
      .createStore .memory ⟨"1.4", false, 2, 2⟩] ∧
    (∀ ev ∈ log, fills ev = false) ∧ (∃ ev ∈ log, created? ev = some ⟨0⟩) ∧
    (∀ ev ∈ log, deletedFrom? ev ≠ some ⟨0⟩) ∧ close ⟨0⟩ s = .ok report t ∧
      FileText.entries? (report.output.content.drop report.offset) = some slots ∧
      ¬ report.Intact slots (s.bindings.view ⟨0⟩) fun r o => lastWrite log r = some o := by
  let calls : List Call := [.createStore .memory ⟨"1.4", false, 2, 2⟩, .createStore .full ⟨"1.4", false, 2, 2⟩,
    .newReferenceIn [⟨0⟩, ⟨1⟩], .write ⟨0⟩ (.boolean false),
    .writeNew ⟨1⟩ (.string ⟨List.replicate 8130 97, .literal⟩), .write ⟨0⟩ (.boolean true), .setCatalog ⟨0⟩ ⟨0⟩]
  -- All in one evaluation: the run has to fill a buffer before a write stops half-way.
  have hfacts : (∀ ev ∈ Operation.events perform calls (ofFilters .standard), fills ev = false) ∧
      (∃ ev ∈ Operation.events perform calls (ofFilters .standard), created? ev = some ⟨0⟩) ∧
      (∀ ev ∈ Operation.events perform calls (ofFilters .standard), deletedFrom? ev ≠ some ⟨0⟩) ∧
      (Operation.after perform calls (ofFilters .standard)).bindings.view ⟨0⟩ ⟨0⟩ = some ⟨1, 0⟩ ∧
      closesWith ⟨0⟩ ⟨1, 0⟩ (lastWrite (Operation.events perform calls (ofFilters .standard)) ⟨0⟩)
        (Operation.after perform calls (ofFilters .standard)) = false := by
    decide +kernel
  obtain ⟨hroom, hnew, hkept, hview, hstale⟩ := hfacts
  cases hclose : close ⟨0⟩ (Operation.after perform calls (ofFilters .standard)) with
  | error e t => simp [closesWith, hclose] at hstale
  | ok report t =>
      cases hread : FileText.entries? (report.output.content.drop report.offset) with
      | none => simp [closesWith, hclose, hread] at hstale
      | some slots =>
          simp only [closesWith, hclose, hread] at hstale
          refine ⟨_, _, t, report, slots, runs_events perform calls _, Operation.map_call_events perform calls _, hroom,
            hnew, hkept, hclose, hread, fun h => ?_⟩
          rw [standsAt_of_intact h hview] at hstale
          cases hstale

end Session

end PdfStore
