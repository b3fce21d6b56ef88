import PdfStore.Proofs.Generations
import PdfStore.Proofs.ReadsBetween

/-!
# Reading back

Whether something has been written under an identity is kept in three places: the offset of its slot, the
object, and the length of the body. They are at one in every store that has been created and used, so
what is read back is what the log says has been written last, and the output is the header and the bodies
that have been written, in order.
-/

namespace PdfStore.Store

variable {st st' : Store} {id id' : ObjectId} {o : Object} {refs : ReferenceTable}

/-! ## What a log tells -/

/-- The identity that a call gives out. A write gives one out even if the object then cannot be written. -/
def reserved? (e : Event Call StoreError Store Answer) : Option ObjectId :=
  match e.call with
  | .reserve => (reserve.outcome e.before).toOption
  | .write _ _ => (reserve.outcome e.before).toOption
  | _ => none

/-- The identity that a call takes back. -/
def deleted? (e : Event Call StoreError Store Answer) : Option ObjectId :=
  match e.call, e.outcome with
  | .delete id, .ok _ => some id
  | _, _ => none

/-- All identities that have been given out, the latest first. -/
def issued (log : Log) : List ObjectId := givenOut reserved? log

/-- The identities that have been given out and not taken back since. -/
def outstanding (log : Log) : List ObjectId := stillOut reserved? deleted? log

/-- The body of an identity with an object that can be written. -/
def bodyOf (id : ObjectId) (object : Object) (refs : ReferenceTable) : Bytes :=
  match object.toBytes (some refs) with
  | .ok content => FileText.object id content
  | .error _ => []

/-- What a call adds to the output. -/
def appended (e : Event Call StoreError Store Answer) : Bytes :=
  match written? e with
  | some (id, object, refs) => bodyOf id object refs
  | none => []

/-- All that has been added to the output, in order. -/
def bodies : Log → Bytes
  | [] => []
  | e :: log => bodies log ++ appended e

/-- The standing of an identity after a call, by that before it. -/
def turned (e : Event Call StoreError Store Answer) (id : ObjectId) (x : Standing) : Standing :=
  match written? e with
  | some (id', object, refs) => if id = id' then .written object (bodyOf id' object refs) else x
  | none => if deleted? e = some id then .absent else if reserved? e = some id then .pending else x

/-! ## The output -/

theorem output_onTable {α : Type} {x : Operation TableError Table α} {a : α} (h : onTable x st = .ok a st') :
    st'.output = st.output := by
  obtain ⟨u, -, rfl⟩ := Operation.onPart_ok h
  rfl

theorem output_delete {out : Release} (h : delete id st = .ok out st') : st'.output = st.output := by
  obtain ⟨_, st₁, h₁, h⟩ := Operation.bind_ok h
  cases h
  have hsame : st₁.output = st.output := output_onTable h₁
  exact hsame

/-- A body that is written stands at the end of the output, and its place is recorded. -/
theorem appendBody_ok {n : Nat} (h : appendBody id o refs st = .ok n st') :
    ∃ c u out, o.toBytes (some refs) = .ok c ∧ n = st.position ∧ Table.setOffset id n st.table = .ok () u ∧
      out.device = st.output.device ∧ out.content = st.output.content ++ FileText.object id c ∧
      st' = { st with
        table := u
        output := out
        payloads := st.payloads.insert id.number ⟨o, (FileText.object id c).length⟩ } := by
  obtain ⟨c, _, hw, h⟩ := Operation.bind_ok h
  obtain ⟨hc, rfl⟩ := Operation.ofExcept_ok hw
  rw [FileText.object_eq] at h
  obtain ⟨_, st₁, ha, h⟩ := Operation.bind_ok h
  obtain ⟨_, st₂, ht, h⟩ := Operation.bind_ok h
  cases h
  obtain ⟨u, hu, rfl⟩ := Operation.onPart_ok ht
  rcases append_cases (FileText.object id c) st with ⟨out, ha', hd, hout⟩ | ⟨ha', -⟩
  · rw [ha] at ha'
    cases ha'
    exact ⟨c, u, out, hc, rfl, hu, hd, hout, rfl⟩
  · rw [ha] at ha'
    cases ha'

theorem checked_same {s : Slot} (h : checked id st = .ok s st') : st = st' := by
  obtain ⟨_, _, hg, h⟩ := Operation.bind_ok h
  cases hg
  exact (Operation.ofExcept_ok h).2

theorem setCatalog_ok (h : setCatalog id st = .ok () st') : st'.output = st.output ∧ st'.table = st.table := by
  obtain ⟨_, _, hs, h⟩ := Operation.bind_ok h
  obtain rfl := checked_same hs
  cases h
  exact ⟨rfl, rfl⟩

theorem setInfo_ok (h : setInfo id st = .ok () st') : st'.output = st.output ∧ st'.table = st.table := by
  obtain ⟨_, _, hs, h⟩ := Operation.bind_ok h
  obtain rfl := checked_same hs
  cases h
  exact ⟨rfl, rfl⟩

theorem appendBody_of_writeAt {n : Nat} (h : writeAt id o refs st = .ok n st') :
    appendBody id o refs st = .ok n st' := by
  obtain ⟨s, _, hs, h⟩ := Operation.bind_ok h
  obtain rfl := checked_same hs
  cases hp : s.isPending with
  | true => simpa [hp] using h
  | false =>
      simp only [hp] at h
      obtain ⟨_, _, h, -⟩ := Operation.bind_ok h
      cases h

theorem appendBody_of_replaceAt {n : Nat} (h : replaceAt id o refs st = .ok n st') :
    appendBody id o refs st = .ok n st' := by
  obtain ⟨s, _, hs, h⟩ := Operation.bind_ok h
  obtain rfl := checked_same hs
  exact h

/-! ## One call -/

/-- The log tells what a call has done. -/
structure Told (e : Event Call StoreError Store Answer) : Prop where
  wellFormed : e.after.WellFormed
  device : e.after.output.device = e.before.output.device
  writable : ∀ {id o refs}, written? e = some (id, o, refs) → ∃ c, o.toBytes (some refs) = .ok c
  standing : ∀ id, e.after.standing id = turned e id (e.before.standing id)
  content : e.after.output.content = e.before.output.content ++ appended e
  books : ∀ {given held}, Table.Ledger e.before.table given held → Table.Ledger e.after.table
    ((reserved? e).toList ++ given) ((reserved? e).toList ++ held.filter (deleted? e ≠ some ·))

theorem filter_none (held : List ObjectId) : held.filter (none ≠ some ·) = held :=
  List.filter_eq_self.2 fun _ _ => by simp

/-- A call that changes no standing. -/
theorem Told.quiet {e : Event Call StoreError Store Answer} {x : ObjectId}
    (h : e.before.Becomes x (e.before.standing x) e.after) (hw : written? e = none) (hd : deleted? e = none)
    (hr : reserved? e = none) (ho : e.after.output.content = e.before.output.content)
    (ht : e.after.table = e.before.table) : Told e where
  wellFormed := h.wellFormed
  device := h.device
  writable := fun hw' => by rw [hw] at hw'; cases hw'
  standing := fun id => by
    simp only [turned, hw, hd, hr, reduceCtorEq, ↓reduceIte]
    rw [h.standing]
    split
    · rename_i hid
      rw [hid]
    · rfl
  content := by rw [appended, hw, ho, List.append_nil]
  books := fun hl => by
    rw [ht, hr, hd, filter_none]
    exact hl

/-- A call that gives out an identity and does not write. -/
theorem Told.gives {e : Event Call StoreError Store Answer} (h : e.before.Becomes id .pending e.after)
    (hw : written? e = none) (hd : deleted? e = none) (hr : reserved? e = some id)
    (ho : e.after.output = e.before.output) (ha : e.before.table.Available id)
    (ht : Table.PhaseChange e.before.table id.number.toNat true id.generation e.after.table) : Told e where
  wellFormed := h.wellFormed
  device := h.device
  writable := fun hw' => by rw [hw] at hw'; cases hw'
  standing := fun id' => by
    simp only [turned, hw, hd, hr, reduceCtorEq, ↓reduceIte, Option.some.injEq]
    rw [h.standing]
    exact if_congr eq_comm rfl rfl
  content := by rw [appended, hw, ho, List.append_nil]
  books := fun hl => by
    rw [hr, hd, filter_none]
    exact hl.reserve ha ht

/-- A call that takes back an identity. -/
theorem Told.takes {e : Event Call StoreError Store Answer} (h : e.before.Becomes id .absent e.after)
    (hw : written? e = none) (hd : deleted? e = some id) (hr : reserved? e = none)
    (ho : e.after.output = e.before.output)
    (hid : e.before.table.phase? id.number.toNat = some (true, id.generation))
    (ht : Table.PhaseChange e.before.table id.number.toNat false
      (e.before.table.nextGeneration id.generation) e.after.table) : Told e where
  wellFormed := h.wellFormed
  device := h.device
  writable := fun hw' => by rw [hw] at hw'; cases hw'
  standing := fun id' => by
    simp only [turned, hw, hd, hr, reduceCtorEq, ↓reduceIte, Option.some.injEq]
    rw [h.standing]
    exact if_congr eq_comm rfl rfl
  content := by rw [appended, hw, ho, List.append_nil]
  books := fun hl => by
    rw [hr, hd]
    exact hl.release hid ht

/-- A call that writes, under an identity in use or one that it gives out first. -/
theorem Told.writes {e : Event Call StoreError Store Answer} {c : Bytes}
    (h : e.before.Becomes id (.written o (FileText.object id c)) e.after) (hw : written? e = some (id, o, refs))
    (hc : o.toBytes (some refs) = .ok c) (ho : e.after.output.content = e.before.output.content ++ FileText.object id c)
    (hbooks : ∀ {given held}, Table.Ledger e.before.table given held → Table.Ledger e.after.table
      ((reserved? e).toList ++ given) ((reserved? e).toList ++ held.filter (deleted? e ≠ some ·))) : Told e := by
  have hbody : bodyOf id o refs = FileText.object id c := by rw [bodyOf, hc]
  exact {
    wellFormed := h.wellFormed
    device := h.device
    writable := fun hw' => by
      rw [hw] at hw'
      cases hw'
      exact ⟨c, hc⟩
    standing := fun id' => by
      simp only [turned, hw, hbody]
      exact h.standing id'
    content := by
      simp only [appended, hw, hbody]
      exact ho
    books := hbooks }

theorem told_ok {k : Call} {a : Answer} (h : perform k st = .ok a st') (ht : Told ⟨st, k, .ok a, st'⟩) :
    Told (.ofCall perform k st) := by
  rw [Event.ofCall, Operation.outcome_ok h, Operation.next_ok h]
  exact ht

theorem told_error {k : Call} {e : StoreError} (h : perform k st = .error e st')
    (ht : Told ⟨st, k, .error e, st'⟩) : Told (.ofCall perform k st) := by
  rw [Event.ofCall, Operation.outcome_error h, Operation.next_error h]
  exact ht

/-- A call that fails without having given out an identity. -/
theorem told_refused {k : Call} {e : StoreError} (hst : st.WellFormed) (h : perform k st = .error e st)
    (hr : reserved? ⟨st, k, .error e, st⟩ = none) : Told (.ofCall perform k st) := by
  refine told_error h (.quiet ((Alike.refl st).becomes hst ⟨0, 0⟩) ?_ ?_ hr rfl rfl)
  · cases k <;> rfl
  · cases k <;> rfl

/-- Recording a place changes no phase. -/
theorem ledger_setOffset {given held : List ObjectId} {n : Nat} {u : Table} (h : st.WellFormed)
    (hv : st.standing id ≠ .absent) (ht : Table.setOffset id n st.table = .ok () u)
    (hl : st.table.Ledger given held) : u.Ledger given held := by
  obtain ⟨chain, hc⟩ := h.chained
  obtain ⟨s, hs⟩ := validate_of_standing hv
  obtain ⟨u', hok, hu⟩ := Table.setOffset_phase hc hs n
  rw [ht] at hok
  cases hok
  exact hl.setOffset ((Table.validate_iff_phase hc).1 ⟨s, hs⟩) hu

theorem becomes_of_appendBody {c : Bytes} {n : Nat} (h : st.WellFormed) (hv : st.standing id ≠ .absent)
    (hok : appendBody id o refs st = .ok n st') (hc : o.toBytes (some refs) = .ok c) :
    st.Becomes id (.written o (FileText.object id c)) st' := by
  rcases appendBody_cases h hv o refs with ⟨c', st'', hok', hc', hb⟩ | ⟨e, he, -⟩ | ⟨he, -⟩
  · rw [hok] at hok'
    cases hok'
    rw [hc] at hc'
    cases hc'
    exact hb
  · rw [hok] at he
    cases he
  · rw [hok] at he
    cases he

/-- A body under an identity in use. -/
theorem told_write {k : Call} {a : Answer} {n : Nat} (h : st.WellFormed)
    (hok : appendBody id o refs st = .ok n st') (hv : st.standing id ≠ .absent)
    (hw : written? ⟨st, k, .ok a, st'⟩ = some (id, o, refs)) (hd : deleted? ⟨st, k, .ok a, st'⟩ = none)
    (hr : reserved? ⟨st, k, .ok a, st'⟩ = none) : Told ⟨st, k, .ok a, st'⟩ := by
  obtain ⟨c, u, out, hc, -, ht, -, ho, rfl⟩ := appendBody_ok hok
  refine .writes (becomes_of_appendBody h hv hok hc) hw hc ho fun hl => ?_
  rw [hr, hd, filter_none]
  exact ledger_setOffset h hv ht hl

/-- The identity that a store gives out, its table afterwards, and its output. -/
theorem reserve_told (h : st.WellFormed) :
    (∃ id st', reserve st = .ok id st' ∧ st.Becomes id .pending st' ∧ st'.output = st.output ∧
      st.table.Available id ∧ Table.PhaseChange st.table id.number.toNat true id.generation st'.table) ∨
      reserve st = .error (.table .full) st := by
  obtain ⟨chain, hc⟩ := h.chained
  rcases reserve_cases h with ⟨id, st', hok, -, hb⟩ | hfull
  · rcases Table.reserve_phase hc with ⟨id', u, hok', ha, hu⟩ | herr
    · have hok'' : reserve st = .ok id' { st with table := u } := onTable_ok hok'
      rw [hok] at hok''
      cases hok''
      exact Or.inl ⟨_, _, hok, hb, rfl, ha, hu⟩
    · have herr' : reserve st = .error (.table .full) st := onTable_error herr
      rw [hok] at herr'
      cases herr'
  · exact Or.inr hfull

theorem told_call (h : st.WellFormed) (k : Call) : Told (.ofCall perform k st) := by
  cases k with
  | reserve =>
      rcases reserve_told h with ⟨id, st', hok, hb, ho, ha, ht⟩ | hfull
      · refine told_ok (Operation.bind_of_ok hok) (.gives hb rfl rfl ?_ ho ha ht)
        simp [reserved?, Operation.outcome_ok hok, Except.toOption]
      · refine told_refused h (Operation.bind_of_error hfull) ?_
        simp [reserved?, Operation.outcome_error hfull, Except.toOption]
  | delete id =>
      by_cases hv : st.standing id = .absent
      · obtain ⟨e, he⟩ := delete_absent hv
        exact told_refused h (Operation.bind_of_error he) rfl
      · obtain ⟨out, st', hok, hb⟩ := delete_live h hv
        obtain ⟨chain, hc⟩ := h.chained
        obtain ⟨s, hs⟩ := validate_of_standing hv
        obtain ⟨out', u, hok', hu⟩ := Table.release_phase hc hs
        have htable : st'.table = u := by
          have h' := hok
          rw [delete, Operation.bind_of_ok (onTable_ok hok')] at h'
          cases h'
          rfl
        exact told_ok (Operation.bind_of_ok hok) (.takes hb rfl rfl rfl (output_delete hok)
          ((Table.validate_iff_phase hc).1 ⟨s, hs⟩) (htable ▸ hu))
  | writeAt id o refs =>
      rcases writeAt_effect h id o refs with ⟨n, st', hok, -⟩ | ⟨e, he⟩
      · have hv : st.standing id ≠ .absent := fun hv => by
          obtain ⟨e, he⟩ : ∃ e, writeAt id o refs st = .error (.table e) st := writeAt_absent hv
          rw [hok] at he
          cases he
        exact told_ok (Operation.bind_of_ok hok) (told_write h (appendBody_of_writeAt hok) hv rfl rfl rfl)
      · exact told_refused h (Operation.bind_of_error he) rfl
  | replaceAt id o refs =>
      rcases replaceAt_effect h id o refs with ⟨n, st', hok, -⟩ | ⟨e, he⟩
      · have hv : st.standing id ≠ .absent := fun hv => by
          obtain ⟨e, he⟩ : ∃ e, replaceAt id o refs st = .error (.table e) st := replaceAt_absent hv
          rw [hok] at he
          cases he
        exact told_ok (Operation.bind_of_ok hok) (told_write h (appendBody_of_replaceAt hok) hv rfl rfl rfl)
      · exact told_refused h (Operation.bind_of_error he) rfl
  | write o refs =>
      rcases reserve_told h with ⟨id, st₁, hok, hb, ho, ha, ht⟩ | hfull
      · have hr : (reserve.outcome st).toOption = some id := by rw [Operation.outcome_ok hok]; rfl
        have hv : st₁.standing id ≠ .absent := by simp [hb.self]
        rcases writeAt_effect hb.wellFormed id o refs with ⟨n, st', hok', -⟩ | ⟨e, he⟩
        · have hwrite : write o refs st = .ok id st' := (Operation.bind_of_ok hok).trans (Operation.bind_of_ok hok')
          obtain ⟨c, u, out, hc, -, ht', -, hout, rfl⟩ := appendBody_ok (appendBody_of_writeAt hok')
          have hb' := becomes_of_appendBody hb.wellFormed hv (appendBody_of_writeAt hok') hc
          refine told_ok (Operation.bind_of_ok hwrite) (.writes (hb.trans hb') rfl hc ?_ fun hl => ?_)
          · exact hout.trans (by rw [ho])
          · rw [show reserved? ⟨st, .write o refs, .ok (.identity id), _⟩ = some id from hr,
              show deleted? ⟨st, .write o refs, .ok (.identity id), _⟩ = none from rfl, filter_none]
            exact ledger_setOffset hb.wellFormed hv ht' (hl.reserve ha ht)
        · have hwrite : write o refs st = .error e st₁ := (Operation.bind_of_ok hok).trans (Operation.bind_of_error he)
          exact told_error (Operation.bind_of_error hwrite) (.gives hb rfl rfl hr ho ha ht)
      · have hwrite : write o refs st = .error (.table .full) st := Operation.bind_of_error hfull
        refine told_refused h (Operation.bind_of_error hwrite) ?_
        simp [reserved?, Operation.outcome_error hfull, Except.toOption]
  | setCatalog id =>
      by_cases hv : st.standing id = .absent
      · obtain ⟨e, he⟩ := setCatalog_absent hv
        exact told_refused h (Operation.bind_of_error he) rfl
      · obtain ⟨st', hok, hb⟩ := setCatalog_live h hv
        obtain ⟨ho, ht⟩ := setCatalog_ok hok
        exact told_ok (Operation.bind_of_ok hok) (.quiet hb rfl rfl rfl (by rw [ho]) ht)
  | setInfo id =>
      by_cases hv : st.standing id = .absent
      · obtain ⟨e, he⟩ := setInfo_absent hv
        exact told_refused h (Operation.bind_of_error he) rfl
      · obtain ⟨st', hok, hb⟩ := setInfo_live h hv
        obtain ⟨ho, ht⟩ := setInfo_ok hok
        exact told_ok (Operation.bind_of_ok hok) (.quiet hb rfl rfl rfl (by rw [ho]) ht)
  | resolve id =>
      rcases look_cases (·.resolve id) st with ⟨a, hok⟩ | ⟨e, he⟩
      · exact told_ok (Operation.bind_of_ok hok) (.quiet ((Alike.refl st).becomes h id) rfl rfl rfl rfl rfl)
      · exact told_refused h (Operation.bind_of_error he) rfl
  | readRaw id =>
      cases hread : readBack id st with
      | ok b st' =>
          have halike := alike_of_readBack hread
          exact told_ok (Operation.bind_of_ok hread)
            (.quiet (halike.becomes h id) rfl rfl rfl halike.content halike.table)
      | error e st' =>
          have halike := alike_of_readBack_error hread
          exact told_error (Operation.bind_of_error hread)
            (.quiet (halike.becomes h id) rfl rfl rfl halike.content halike.table)

/-! ## Runs -/

/-- The standing of an identity, as the log tells it. -/
def recalled (log : Log) (id : ObjectId) : Standing :=
  if id ∈ outstanding log then
    match lastWrite log id with
    | none => .pending
    | some (o, refs) => .written o (bodyOf id o refs)
  else .absent

/-- The store is what the log tells. -/
structure Remembers (config : Config) (log : Log) (st : Store) : Prop where
  wellFormed : st.WellFormed
  device : st.output.device = .memory
  books : st.table.Ledger (issued log) (outstanding log)
  unknown : ∀ id, id ∉ issued log → lastWrite log id = none
  writable : ∀ e ∈ log, ∀ id o refs, written? e = some (id, o, refs) → ∃ c, o.toBytes (some refs) = .ok c
  standing : ∀ id, st.standing id = recalled log id
  content : st.output.content = FileText.header config ++ bodies log

theorem mem_iff_standing {given held : List ObjectId} (h : st.WellFormed) (hl : st.table.Ledger given held) :
    id ∈ held ↔ st.standing id ≠ .absent := by
  obtain ⟨chain, hc⟩ := h.chained
  rw [hl.held_iff, ← Table.validate_iff_phase hc]
  exact ⟨fun ⟨_, hs⟩ => standing_of_validate hs, validate_of_standing⟩

theorem recalled_ne_absent {log : Log} : recalled log id ≠ .absent ↔ id ∈ outstanding log := by
  rw [recalled]
  split
  · split <;> simp [*]
  · simp [*]

theorem recalled_of_same {log log' : Log} (hw : lastWrite log' id = lastWrite log id)
    (hl : id ∈ outstanding log' ↔ id ∈ outstanding log) : recalled log' id = recalled log id := by
  rw [recalled, recalled, hw]
  exact if_congr hl rfl rfl

/-- What the log tells of a call goes with what it has told before, if an identity is not given out after it
has been written. -/
theorem turned_recalled {log : Log} {e : Event Call StoreError Store Answer}
    (hl : id ∈ outstanding (e :: log) ↔ turned e id (recalled log id) ≠ .absent)
    (hr : reserved? e = some id → lastWrite log id = none) :
    turned e id (recalled log id) = recalled (e :: log) id := by
  cases hw : written? e with
  | some w =>
      obtain ⟨id', o, refs⟩ := w
      simp only [turned, hw] at hl ⊢
      by_cases hid : id = id'
      · subst hid
        rw [if_pos rfl] at hl ⊢
        rw [recalled, if_pos (hl.2 (by simp)), lastWrite_cons_some hw, if_pos rfl]
      · rw [if_neg hid] at hl ⊢
        exact (recalled_of_same (by rw [lastWrite_cons_some hw, if_neg hid]) (hl.trans recalled_ne_absent)).symm
  | none =>
      simp only [turned, hw] at hl ⊢
      by_cases hd : deleted? e = some id
      · rw [if_pos hd] at hl ⊢
        rw [recalled, if_neg fun hin => hl.1 hin rfl]
      · rw [if_neg hd] at hl ⊢
        by_cases hg : reserved? e = some id
        · rw [if_pos hg] at hl ⊢
          rw [recalled, if_pos (hl.2 (by simp)), lastWrite_cons_none hw, hr hg]
        · rw [if_neg hg] at hl ⊢
          exact (recalled_of_same (by rw [lastWrite_cons_none hw]) (hl.trans recalled_ne_absent)).symm

theorem exists_event_of_lastWrite {log : Log} (h : lastWrite log id = some (o, refs)) :
    ∃ e ∈ log, written? e = some (id, o, refs) := by
  obtain ⟨w, hw, heq⟩ := Option.map_eq_some_iff.1 h
  obtain ⟨e, he, hwe⟩ := List.mem_filterMap.1 (List.mem_of_find?_eq_some hw)
  have hid : w.1 = id := by simpa using List.find?_some hw
  exact ⟨e, he, by rw [hwe, ← hid, ← heq]⟩

theorem Remembers.told {config : Config} {log : Log} {e : Event Call StoreError Store Answer}
    (h : Remembers config log e.before) (ht : Told e) : Remembers config (e :: log) e.after := by
  have hbooks : e.after.table.Ledger (issued (e :: log)) (outstanding (e :: log)) := by
    rw [issued, givenOut_cons]
    exact ht.books h.books
  have hstanding (id : ObjectId) : e.after.standing id = turned e id (recalled log id) := by
    rw [ht.standing, h.standing]
  have hlive (id : ObjectId) : id ∈ outstanding (e :: log) ↔ turned e id (recalled log id) ≠ .absent :=
    hstanding id ▸ mem_iff_standing ht.wellFormed hbooks
  constructor
  case wellFormed => exact ht.wellFormed
  case device => exact ht.device.trans h.device
  case books => exact hbooks
  case unknown =>
    intro id hid
    cases hw : written? e with
    | some w =>
        obtain ⟨id', o, refs⟩ := w
        have hne : id ≠ id' := fun heq => hid (mem_givenOut _ _ ((hlive id).2 (by simp [turned, hw, heq])))
        rw [lastWrite_cons_some hw, if_neg hne]
        exact h.unknown id fun hin => hid (by rw [issued, givenOut_cons]; exact List.mem_append_right _ hin)
    | none =>
        rw [lastWrite_cons_none hw]
        exact h.unknown id fun hin => hid (by rw [issued, givenOut_cons]; exact List.mem_append_right _ hin)
  case writable =>
    intro e' he' id o refs hw
    rcases List.mem_cons.1 he' with rfl | he'
    · exact ht.writable hw
    · exact h.writable e' he' id o refs hw
  case standing =>
    intro id
    rw [hstanding]
    refine turned_recalled (hlive id) fun hr => h.unknown id fun hin => ?_
    -- An identity that is given out has not been given out before.
    have hnodup := hbooks.nodup
    rw [issued, givenOut_cons, hr] at hnodup
    exact (List.nodup_cons.1 hnodup).1 hin
  case content => rw [ht.content, h.content, bodies, List.append_assoc]

theorem create_memory {config : Config} (hv : config.validate = .ok ()) :
    ∃ first, create .memory config = .ok first := by
  obtain ⟨table, ht, -⟩ := Table.chained_ofCluster (cluster_of_validate hv) config.maxGeneration
  obtain ⟨o, ho, hd, -⟩ : ∃ o, OutputCursor.create? .memory = some o ∧ o.device = .memory ∧ o.content = [] :=
    ⟨_, rfl, rfl, rfl⟩
  rcases OutputCursor.append_cases o config.header with ⟨o', ha, -⟩ | ⟨-, hfull⟩
  · simp [create, ho, hv, ht, ha, Except.mapError, bind, Except.bind]
  · rw [hd] at hfull
    cases hfull

theorem remembers_first {config : Config} (h : create .memory config = .ok st) : Remembers config [] st := by
  obtain ⟨hwf, -, hmemory, hheader, habsent⟩ := create_ok h
  obtain ⟨hv, table, o, ht, -, -, rfl⟩ := create_parts h
  obtain ⟨t, ht', hlimit, -, hl⟩ := Table.chained_ofCluster (cluster_of_validate hv) config.maxGeneration
  rw [ht] at ht'
  cases ht'
  exact {
    wellFormed := hwf
    device := hmemory
    books := Table.ledger_first (hlimit ▸ hl)
    unknown := fun _ _ => rfl
    writable := fun _ he => absurd he List.not_mem_nil
    standing := habsent
    content := hheader.trans (List.append_nil _).symm }

theorem remembers_run {config : Config} {first : Store} {log : Log} (h₀ : create .memory config = .ok first)
    (h : Runs perform first log st) : Remembers config log st := by
  induction h with
  | none => exact remembers_first h₀
  | call _ k ih => exact ih.told (told_call ih.wellFormed k)

/-! ## What is read back -/

theorem readRaw_written {b : Bytes} (h : st.WellFormed) (hd : st.output.device ≠ .full)
    (hs : st.standing id = .written o b) : st.readRaw id = .ok b :=
  Operation.outcome_ok (readBack_written h hd hs)

theorem readRaw_pending (h : st.standing id = .pending) : st.readRaw id = .error (.notWritten id) :=
  Operation.outcome_error (readBack_pending h)

theorem readRaw_absent (h : st.standing id = .absent) : ∃ e, st.readRaw id = .error (.table e) := by
  obtain ⟨e, he⟩ := readBack_absent h
  exact ⟨e, Operation.outcome_error he⟩

/-- The identity whose standing a call changes, if it changes one. -/
def changed? (e : Event Call StoreError Store Answer) : Option ObjectId :=
  match written? e with
  | some (id, _) => some id
  | none => (deleted? e).or (reserved? e)

theorem reserved?_of_deleted {e : Event Call StoreError Store Answer} (h : deleted? e = some id) :
    reserved? e = none := by
  obtain ⟨before, call, outcome, after⟩ := e
  cases call with
  | delete id => rfl
  | _ => cases h

theorem turned_of_unchanged {e : Event Call StoreError Store Answer} (h : changed? e ≠ some id)
    (x : Standing) : turned e id x = x := by
  cases hw : written? e with
  | some w =>
      simp only [changed?, hw] at h
      simp only [turned, hw]
      exact if_neg fun hid => h (congrArg some hid.symm)
  | none =>
      simp only [changed?, hw] at h
      simp only [turned, hw]
      cases hd : deleted? e with
      | some id' =>
          rw [hd, Option.some_or] at h
          rw [if_neg h, reserved?_of_deleted hd, if_neg (by simp)]
      | none =>
          rw [hd, Option.none_or] at h
          rw [if_neg (by simp), if_neg h]

theorem isWritten_congr (h : st.WellFormed) (h' : st'.WellFormed) (hs : st'.standing id = st.standing id) :
    st'.isWritten id = st.isWritten id := by
  rw [Bool.eq_iff_iff, isWritten_iff h, isWritten_iff h', hs]

/-- What is found in a store after calls on it is what the log tells. -/
structure ReadsBack (config : Config) (first : Store) (log : Log) (st : Store) : Prop where
  written : ∀ id o refs, id ∈ outstanding log → lastWrite log id = some (o, refs) →
    st.resolve id = .ok o ∧ ∃ c, o.toBytes (some refs) = .ok c ∧ st.readRaw id = .ok (FileText.object id c)
  unwritten : ∀ id, id ∈ outstanding log → lastWrite log id = none →
    st.resolve id = .error (.notWritten id) ∧ st.readRaw id = .error (.notWritten id)
  isWritten : ∀ id, (st.isWritten id = true ↔ ∃ o, st.resolve id = .ok o) ∧
    (st.isWritten id = true ↔ ∃ b, st.readRaw id = .ok b)
  /-- Calls that change another identity, or none, change nothing that is found under this one. -/
  others : ∀ k id, changed? (.ofCall perform k st) ≠ some id →
    ((perform k).next st).isWritten id = st.isWritten id ∧
      (id ∈ outstanding log → ((perform k).next st).resolve id = st.resolve id ∧
        ((perform k).next st).readRaw id = st.readRaw id)
  /-- Reading back moves the cursor, and comes back to the same position behind the same bytes. -/
  reads : ∀ id, st.Alike ((perform (.readRaw id)).next st) ∧
    ((perform (.readRaw id)).next st).position = st.position
  /-- The other calls alone have the same outcomes, append the same bytes and lead to the same file. -/
  interleaved : ∃ log' st', Runs perform first log' st' ∧
    log'.map (fun e => (e.call, e.outcome)) = withoutReads log ∧ bodies log' = bodies log ∧
    st.Alike st' ∧ st'.close = st.close
  /-- The output is the header and what has been written, each time whole. -/
  content : st.output.content = FileText.header config ++ bodies log ∧ ∀ e ∈ log, ∀ id o refs,
    written? e = some (id, o, refs) → ∃ c, o.toBytes (some refs) = .ok c ∧ appended e = FileText.object id c

theorem Remembers.readsBack {config : Config} {first : Store} {log : Log} (h₀ : create .memory config = .ok first)
    (hrun : Runs perform first log st) (h : Remembers config log st) : ReadsBack config first log st := by
  have hdevice : ∀ {st : Store}, st.output.device = .memory → st.output.device ≠ .full := fun hd => by simp [hd]
  constructor
  case written =>
    intro id o refs hid hw
    obtain ⟨e, he, hwe⟩ := exists_event_of_lastWrite hw
    obtain ⟨c, hc⟩ := h.writable e he id o refs hwe
    have hs : st.standing id = .written o (FileText.object id c) := by
      rw [h.standing, recalled, if_pos hid, hw]
      simp only [bodyOf, hc]
    exact ⟨resolve_written hs, c, hc, readRaw_written h.wellFormed (hdevice h.device) hs⟩
  case unwritten =>
    intro id hid hw
    have hs : st.standing id = .pending := by rw [h.standing, recalled, if_pos hid, hw]
    exact ⟨resolve_pending hs, readRaw_pending hs⟩
  case isWritten =>
    intro id
    rw [isWritten_iff h.wellFormed]
    cases hs : st.standing id with
    | absent =>
        obtain ⟨e, he⟩ := resolve_absent hs
        obtain ⟨e', he'⟩ := readRaw_absent hs
        simp [he, he']
    | pending => simp [resolve_pending hs, readRaw_pending hs]
    | written o b => simp [resolve_written hs, readRaw_written h.wellFormed (hdevice h.device) hs]
  case others =>
    intro k id hid
    have ht := told_call h.wellFormed k
    have h' := Remembers.told (e := .ofCall perform k st) h ht
    have hs : ((perform k).next st).standing id = st.standing id := by
      have hs := ht.standing id
      rwa [turned_of_unchanged hid] at hs
    refine ⟨isWritten_congr h.wellFormed h'.wellFormed hs, fun hin => ?_⟩
    have hwf : ((perform k).next st).WellFormed := h'.wellFormed
    have hd : ((perform k).next st).output.device ≠ .full := hdevice h'.device
    cases hst : st.standing id with
    | absent => exact absurd hst ((mem_iff_standing h.wellFormed h.books).1 hin)
    | pending =>
        rw [hst] at hs
        exact ⟨by rw [resolve_pending hs, resolve_pending hst], by rw [readRaw_pending hs, readRaw_pending hst]⟩
    | written o b =>
        rw [hst] at hs
        exact ⟨by rw [resolve_written hs, resolve_written hst],
          by rw [readRaw_written hwf hd hs, readRaw_written h.wellFormed (hdevice h.device) hst]⟩
  case reads =>
    intro id
    have halike : st.Alike ((perform (.readRaw id)).next st) :=
      Operation.next_bind_pure (readBack id) Answer.bytes st ▸ alike_readBack st id
    exact ⟨halike, by rw [position_eq, position_eq, halike.content]⟩
  case interleaved =>
    obtain ⟨log', st', hrun', hlog, htwin⟩ := withoutReads_run (hdevice (create_ok h₀).2.2.1) hrun
    have hbodies := (remembers_run h₀ hrun').content
    rw [htwin.alike.content, h.content] at hbodies
    exact ⟨log', st', hrun', hlog, (List.append_cancel_left hbodies).symm, htwin.alike, htwin.close_eq⟩
  case content =>
    refine ⟨h.content, fun e he id o refs hw => ?_⟩
    obtain ⟨c, hc⟩ := h.writable e he id o refs hw
    exact ⟨c, hc, by simp only [appended, hw, bodyOf, hc]⟩

/-- A store in memory can be created with every valid configuration. After any calls, what is read back
under an identity that is given out is what has been written under it last, as an object and as the bytes
of its body under the table of references that was given then; nothing is read back where nothing has been
written. No call on another identity changes that. Reading back in between, whether or not it fails, changes neither
what the other calls find nor what they append. -/
theorem readsBack_of_run {config : Config} (hv : config.validate = .ok ()) :
    ∃ first, create .memory config = .ok first ∧ ∀ (log : Log) (st : Store), Runs perform first log st →
      ReadsBack config first log st := by
  obtain ⟨first, h₀⟩ := create_memory hv
  exact ⟨first, h₀, fun log st hrun => (remembers_run h₀ hrun).readsBack h₀ hrun⟩

/-- An object that is written, read and written again, and a number that is given out a second time. -/
theorem readsBack_after_rewrite : Config.validate ⟨"1.4", true, 2, 2⟩ = .ok () ∧
    ∃ (first : Store) (log : Log) (st : Store), create .memory ⟨"1.4", true, 2, 2⟩ = .ok first ∧
      Runs perform first log st ∧
      log.map Event.call = [.readRaw ⟨1, 0⟩, .reserve, .delete ⟨2, 0⟩, .replaceAt ⟨1, 0⟩ .null fun _ => none,
        .readRaw ⟨1, 0⟩, .write (.boolean true) fun _ => none, .writeAt ⟨1, 0⟩ (.indirect ⟨0⟩) fun _ => none,
        .writeAt ⟨1, 0⟩ (.indirect ⟨0⟩) fun _ => some ⟨2, 0⟩, .reserve] ∧
      st.resolve ⟨1, 0⟩ = .ok .null ∧ st.readRaw ⟨1, 0⟩ = .ok (Bytes.ofString "1 0 obj\nnull\nendobj\n") ∧
      st.resolve ⟨2, 1⟩ = .error (.notWritten ⟨2, 1⟩) := by
  have hv : Config.validate ⟨"1.4", true, 2, 2⟩ = .ok () := by decide +kernel
  obtain ⟨first, h₀, h⟩ := readsBack_of_run hv
  let calls : List Call := [.reserve, .writeAt ⟨1, 0⟩ (.indirect ⟨0⟩) fun _ => some ⟨2, 0⟩,
    .writeAt ⟨1, 0⟩ (.indirect ⟨0⟩) fun _ => none, .write (.boolean true) fun _ => none,
    .readRaw ⟨1, 0⟩, .replaceAt ⟨1, 0⟩ .null fun _ => none, .delete ⟨2, 0⟩, .reserve, .readRaw ⟨1, 0⟩]
  have hlog : (create .memory ⟨"1.4", true, 2, 2⟩).toOption.map (fun first =>
      let log := Operation.events perform calls first
      (outstanding log, (lastWrite log ⟨1, 0⟩).map fun w => w.1.isNull, (lastWrite log ⟨2, 1⟩).isNone)) =
      some ([⟨2, 1⟩, ⟨1, 0⟩], some true, true) := by
    decide +kernel
  rw [h₀] at hlog
  injection hlog with hlog
  injection hlog with hheld hlog
  injection hlog with hnull hnone
  have hrun := runs_events perform calls first
  have hcalls := Operation.map_call_events perform calls first
  -- What the calls lead to is not to be computed again.
  generalize Operation.after perform calls first = st at hrun
  generalize Operation.events perform calls first = log at hrun hcalls hheld hnull hnone
  have hback := h log st hrun
  refine ⟨hv, first, log, st, h₀, hrun, hcalls, ?_⟩
  obtain ⟨⟨o, refs⟩, hw, hnull⟩ := Option.map_eq_some_iff.1 hnull
  have ho : o = .null := by
    cases o with
    | null => rfl
    | _ => cases hnull
  subst ho
  obtain ⟨hresolve, c, hc, hraw⟩ := hback.written ⟨1, 0⟩ .null refs (by rw [hheld]; decide) hw
  cases hc
  exact ⟨hresolve, hraw, (hback.unwritten ⟨2, 1⟩ (by rw [hheld]; decide) (Option.isNone_iff_eq_none.1 hnone)).1⟩

end PdfStore.Store
