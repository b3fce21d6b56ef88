import PdfStore.Proofs.OrderedMaps
import PdfStore.Proofs.TableEntries
import PdfStore.Proofs.WrittenForm
import PdfStore.Store.Basic

/-!
# What a store holds

Of an identity a store knows whether it is given out, and which object and which bytes have been written
under it (`Store.standing`). Every operation that succeeds changes the standing of one identity, and
every one that fails changes none.
-/

namespace PdfStore

/-- What a store knows of an identity. -/
inductive Standing
  | absent
  | pending
  | written (object : Object) (body : Bytes)

def Standing.object? : Standing → Option Object
  | written o _ => some o
  | _ => none

namespace Store

variable {st st' : Store} {id id' : ObjectId} {o : Object} {refs : ReferenceTable}

def standing (st : Store) (id : ObjectId) : Standing :=
  match st.table.validate id with
  | .error _ => .absent
  | .ok s =>
    match st.payloads.get? id.number with
    | none => .pending
    | some p => .written p.object ((st.output.content.drop s.offset).take p.length)

/-- The next body begins behind all bytes appended so far. -/
theorem position_eq (st : Store) : st.position = st.output.content.length := st.output.position_eq

/-- A slot in use whose object is kept. -/
structure Placed (st : Store) (n : UInt32) (s : Slot) (p : Payload) : Prop where
  entry : st.table.used? n.toNat = some s
  payload : st.payloads.get? n = some p

/-- The invariant of stores: the slots that have an offset are those whose object is kept, and their bodies
stand behind the header, none of them in another. -/
structure WellFormed (st : Store) : Prop where
  chained : ∃ chain, st.table.Chained chain
  dirty : ∀ s ∈ st.table.toList, s.dirty = true
  ascending : st.payloads.Ascending
  payload_iff : ∀ n, (∃ p, st.payloads.get? n = some p) ↔ ∃ s, st.table.used? n.toNat = some s ∧ s.offset ≠ 0
  within : ∀ {n s p}, st.Placed n s p →
    st.config.header.length ≤ s.offset ∧ s.offset + p.length ≤ st.output.content.length
  disjoint : ∀ {n n' s s' p p'}, st.Placed n s p → st.Placed n' s' p' → n ≠ n' →
    s.offset + p.length ≤ s'.offset ∨ s'.offset + p'.length ≤ s.offset
  header : st.config.header <+: st.output.content
  catalog : ∀ id, st.catalog = some id → st.standing id ≠ .absent
  info : ∀ id, st.info = some id → st.standing id ≠ .absent

/-! ## Reading the standing -/

/-- The standing of an identity by its slot, its payload and the output. -/
def standingAt (content : Bytes) (g : UInt16) : Option Slot → Option Payload → Standing
  | none, _ => .absent
  | some s, none => if s.generation = g then .pending else .absent
  | some s, some p =>
    if s.generation = g then .written p.object ((content.drop s.offset).take p.length) else .absent

theorem standingAt_absent {content : Bytes} {g : UInt16} {e : Option Slot} {q : Option Payload}
    (h : ∀ s, e = some s → s.generation ≠ g) : standingAt content g e q = .absent := by
  cases e with
  | none => rfl
  | some s => cases q <;> simp [standingAt, h s rfl]

theorem standing_eq {chain : List Nat} (hc : st.table.Chained chain) (id : ObjectId) :
    st.standing id = standingAt st.output.content id.generation (st.table.used? id.number.toNat)
      (st.payloads.get? id.number) := by
  unfold standing
  cases hv : st.table.validate id with
  | ok s =>
      obtain ⟨he, hg⟩ := (Table.validate_ok_iff_entry hc).1 hv
      rw [he]
      cases st.payloads.get? id.number <;> simp [standingAt, hg]
  | error e =>
      cases he : st.table.used? id.number.toNat with
      | none => rfl
      | some s =>
          have hg : s.generation ≠ id.generation := fun hg => by
            rw [(Table.validate_ok_iff_entry hc).2 ⟨he, hg⟩] at hv
            cases hv
          cases st.payloads.get? id.number <;> simp [standingAt, hg]

theorem validate_of_standing (h : st.standing id ≠ .absent) : ∃ s, st.table.validate id = .ok s := by
  unfold standing at h
  cases hv : st.table.validate id with
  | ok s => exact ⟨s, rfl⟩
  | error e => exact absurd (by rw [hv]) h

theorem standing_of_validate {s : Slot} (h : st.table.validate id = .ok s) : st.standing id ≠ .absent := by
  rw [standing, h]
  cases st.payloads.get? id.number <;> simp

theorem validate_of_absent (h : st.standing id = .absent) : ∃ e, st.table.validate id = .error e := by
  cases hv : st.table.validate id with
  | ok s => exact absurd h (standing_of_validate hv)
  | error e => exact ⟨e, rfl⟩

theorem resolve_written {b : Bytes} (h : st.standing id = .written o b) : st.resolve id = .ok o := by
  unfold standing at h
  cases hv : st.table.validate id with
  | error e => simp [hv] at h
  | ok s =>
      cases hp : st.payloads.get? id.number with
      | none => simp [hv, hp] at h
      | some p =>
          simp only [hv, hp, Standing.written.injEq] at h
          simp [resolve, validate, payload, hv, hp, h.1, Except.mapError, bind, Except.bind, pure, Except.pure]

theorem resolve_pending (h : st.standing id = .pending) : st.resolve id = .error (.notWritten id) := by
  unfold standing at h
  cases hv : st.table.validate id with
  | error e => simp [hv] at h
  | ok s =>
      cases hp : st.payloads.get? id.number with
      | none => simp [resolve, validate, payload, hv, hp, Except.mapError, bind, Except.bind]
      | some p => simp [hv, hp] at h

theorem resolve_absent (h : st.standing id = .absent) : ∃ e, st.resolve id = .error (.table e) := by
  obtain ⟨e, he⟩ := validate_of_absent h
  exact ⟨e, by simp [resolve, validate, he, Except.mapError, bind, Except.bind]⟩

/-- A body is found under every identity that has been written. -/
theorem isWritten_iff (h : st.WellFormed) (id : ObjectId) :
    st.isWritten id = true ↔ ∃ o b, st.standing id = .written o b := by
  obtain ⟨chain, hc⟩ := h.chained
  rw [standing, isWritten]
  cases hv : st.table.validate id with
  | error e => simp
  | ok s =>
      obtain ⟨he, hg⟩ := (Table.validate_ok_iff_entry hc).1 hv
      have hiff := h.payload_iff id.number
      have huse : s.inUse = true := (Table.used?_eq_some.1 he).2
      cases hp : st.payloads.get? id.number with
      | none =>
          have : s.offset = 0 := by
            by_contra h₀
            obtain ⟨p, hp'⟩ := hiff.2 ⟨s, he, h₀⟩
            rw [hp] at hp'
            cases hp'
          simp [Slot.isPending, huse, this]
      | some p =>
          obtain ⟨s', he', h₀⟩ := hiff.1 ⟨p, hp⟩
          rw [he] at he'
          cases he'
          simp [Slot.isPending, huse, h₀]

/-! ## Changing one identity -/

/-- A store in which one number has another entry and another payload, and whose output has grown. -/
structure Change (st : Store) (n : UInt32) (e : Option Slot) (q : Option Payload) (extra : Bytes)
    (st' : Store) : Prop where
  config : st'.config = st.config
  device : st'.output.device = st.output.device
  content : st'.output.content = st.output.content ++ extra
  table : Table.EntryChange st.table n.toNat e st'.table
  payload : ∀ m, st'.payloads.get? m = if m = n then q else st.payloads.get? m
  ascending : st'.payloads.Ascending
  offset_iff : (∃ p, q = some p) ↔ ∃ s, e = some s ∧ s.offset ≠ 0
  place : ∀ s p, e = some s → q = some p → st.output.content.length ≤ s.offset ∧
    s.offset + p.length ≤ st.output.content.length + extra.length

namespace Change

variable {n : UInt32} {e : Option Slot} {q : Option Payload} {extra : Bytes}

theorem entry (h : Change st n e q extra st') (m : UInt32) :
    st'.table.used? m.toNat = if m = n then e else st.table.used? m.toNat := by
  rw [h.table.entry]
  exact if_congr UInt32.toNat_inj rfl rfl

/-- What is placed afterwards is either new or has been placed before. -/
theorem placed (h : Change st n e q extra st') {m : UInt32} {s : Slot} {p : Payload}
    (hp : st'.Placed m s p) : m = n ∧ e = some s ∧ q = some p ∨ m ≠ n ∧ st.Placed m s p := by
  obtain ⟨he, hq⟩ := hp
  rw [h.entry] at he
  rw [h.payload] at hq
  by_cases hm : m = n
  · rw [if_pos hm] at he hq
    exact Or.inl ⟨hm, he, hq⟩
  · rw [if_neg hm] at he hq
    exact Or.inr ⟨hm, he, hq⟩

theorem standing (h : Change st n e q extra st') (hst : st.WellFormed) (id : ObjectId) :
    st'.standing id = if id.number = n then standingAt st'.output.content id.generation e q
      else st.standing id := by
  obtain ⟨chain, hc⟩ := hst.chained
  obtain ⟨chain', hc'⟩ := h.table.chained
  rw [standing_eq hc', h.entry, h.payload]
  by_cases hn : id.number = n
  · rw [if_pos hn, if_pos hn, if_pos hn]
  · rw [if_neg hn, if_neg hn, if_neg hn, standing_eq hc]
    cases he : st.table.used? id.number.toNat with
    | none => rfl
    | some s =>
        cases hp : st.payloads.get? id.number with
        | none => rfl
        | some p =>
            -- The body lies within what had been written before, so growth does not move it.
            have hle := (hst.within ⟨he, hp⟩).2
            have hbytes : ((st.output.content ++ extra).drop s.offset).take p.length =
                (st.output.content.drop s.offset).take p.length := by
              rw [List.drop_append_of_le_length (by omega), List.take_append_of_le_length (by simp; omega)]
            simp only [standingAt, h.content, hbytes]

theorem wellFormed (h : Change st n e q extra st') (hst : st.WellFormed)
    (hcat : ∀ id, st'.catalog = some id → st'.standing id ≠ .absent)
    (hinfo : ∀ id, st'.info = some id → st'.standing id ≠ .absent) : st'.WellFormed where
  chained := h.table.chained
  dirty := h.table.dirty hst.dirty
  ascending := h.ascending
  payload_iff := fun m => by
    rw [h.payload, h.entry]
    by_cases hm : m = n
    · rw [if_pos hm, if_pos hm]
      exact h.offset_iff
    · rw [if_neg hm, if_neg hm]
      exact hst.payload_iff m
  within := fun {m s p} hp => by
    have hlen : st'.output.content.length = st.output.content.length + extra.length := by
      rw [h.content, List.length_append]
    rw [h.config, hlen]
    rcases h.placed hp with ⟨-, he, hq⟩ | ⟨-, hp⟩
    · obtain ⟨h₁, h₂⟩ := h.place s p he hq
      exact ⟨Nat.le_trans hst.header.length_le h₁, h₂⟩
    · obtain ⟨h₁, h₂⟩ := hst.within hp
      exact ⟨h₁, Nat.le_trans h₂ (Nat.le_add_right _ _)⟩
  disjoint := fun {m m' s s' p p'} hp hp' hne => by
    rcases h.placed hp with ⟨hm, he, hq⟩ | ⟨-, hp⟩
    · rcases h.placed hp' with ⟨hm', -, -⟩ | ⟨-, hp'⟩
      · exact absurd (hm.trans hm'.symm) hne
      · exact Or.inr (Nat.le_trans (hst.within hp').2 (h.place s p he hq).1)
    · rcases h.placed hp' with ⟨-, he', hq'⟩ | ⟨-, hp'⟩
      · exact Or.inl (Nat.le_trans (hst.within hp).2 (h.place s' p' he' hq').1)
      · exact hst.disjoint hp hp' hne
  header := by
    rw [h.config, h.content]
    exact hst.header.trans (List.prefix_append _ _)
  catalog := hcat
  info := hinfo

end Change

/-- A store in which one identity has another standing. -/
structure Becomes (st : Store) (id : ObjectId) (x : Standing) (st' : Store) : Prop where
  wellFormed : st'.WellFormed
  config : st'.config = st.config
  device : st'.output.device = st.output.device
  standing : ∀ id', st'.standing id' = if id' = id then x else st.standing id'

/-- A change under the number of an identity changes the standing of that identity alone, if the slots
before and after are of its generation. -/
theorem Change.becomes {e : Option Slot} {q : Option Payload} {extra : Bytes} {x : Standing}
    (h : Change st id.number e q extra st') (hst : st.WellFormed)
    (hx : standingAt st'.output.content id.generation e q = x)
    (hold : ∀ s, st.table.used? id.number.toNat = some s → s.generation = id.generation)
    (hnew : ∀ s, e = some s → s.generation = id.generation)
    (hcat : ∀ id', st'.catalog = some id' → st.catalog = some id' ∧ (id' = id → x ≠ .absent))
    (hinfo : ∀ id', st'.info = some id' → st.info = some id' ∧ (id' = id → x ≠ .absent)) :
    Becomes st id x st' := by
  obtain ⟨chain, hc⟩ := hst.chained
  have hstanding : ∀ id', st'.standing id' = if id' = id then x else st.standing id' := fun id' => by
    rw [h.standing hst]
    by_cases hid : id' = id
    · rw [if_pos hid, if_pos (congrArg ObjectId.number hid), hid, hx]
    · rw [if_neg hid]
      by_cases hn : id'.number = id.number
      · -- Another generation of the number: absent before and after.
        have hg : id.generation ≠ id'.generation := fun hg => hid (by cases id; cases id'; simp_all)
        rw [if_pos hn, standing_eq hc, hn, standingAt_absent fun s hs => hnew s hs ▸ hg,
          standingAt_absent fun s hs => hold s hs ▸ hg]
      · rw [if_neg hn]
  refine ⟨h.wellFormed hst (fun id' hid' => ?_) (fun id' hid' => ?_), h.config, h.device, hstanding⟩
  · obtain ⟨hold', hne⟩ := hcat id' hid'
    rw [hstanding]
    split
    · exact hne ‹_›
    · exact hst.catalog id' hold'
  · obtain ⟨hold', hne⟩ := hinfo id' hid'
    rw [hstanding]
    split
    · exact hne ‹_›
    · exact hst.info id' hold'

/-- The same store, apart from which bytes of its output still wait. -/
structure Alike (st st' : Store) : Prop where
  config : st'.config = st.config
  table : st'.table = st.table
  payloads : st'.payloads = st.payloads
  catalog : st'.catalog = st.catalog
  info : st'.info = st.info
  device : st'.output.device = st.output.device
  content : st'.output.content = st.output.content

theorem Alike.refl (st : Store) : st.Alike st := ⟨rfl, rfl, rfl, rfl, rfl, rfl, rfl⟩

theorem Alike.trans {st'' : Store} (h : st.Alike st') (h' : st'.Alike st'') : st.Alike st'' :=
  ⟨h'.config.trans h.config, h'.table.trans h.table, h'.payloads.trans h.payloads, h'.catalog.trans h.catalog,
    h'.info.trans h.info, h'.device.trans h.device, h'.content.trans h.content⟩

theorem Alike.symm (h : st.Alike st') : st'.Alike st :=
  ⟨h.config.symm, h.table.symm, h.payloads.symm, h.catalog.symm, h.info.symm, h.device.symm, h.content.symm⟩

theorem Alike.standing (h : st.Alike st') : st'.standing = st.standing := by
  funext id
  rw [Store.standing, Store.standing, h.table, h.payloads, h.content]

theorem Alike.wellFormed (h : st.Alike st') (hst : st.WellFormed) : st'.WellFormed := by
  have hplaced : ∀ {n s p}, st'.Placed n s p → st.Placed n s p := fun hp =>
    ⟨h.table ▸ hp.entry, h.payloads ▸ hp.payload⟩
  constructor
  case chained => exact h.table ▸ hst.chained
  case dirty => exact h.table ▸ hst.dirty
  case ascending => exact h.payloads ▸ hst.ascending
  case payload_iff => exact h.table ▸ h.payloads ▸ hst.payload_iff
  case within =>
    intro n s p hp
    rw [h.config, h.content]
    exact hst.within (hplaced hp)
  case disjoint => exact fun hp hp' => hst.disjoint (hplaced hp) (hplaced hp')
  case header =>
    rw [h.config, h.content]
    exact hst.header
  case catalog => exact fun id hid => h.standing ▸ hst.catalog id (h.catalog ▸ hid)
  case info => exact fun id hid => h.standing ▸ hst.info id (h.info ▸ hid)

theorem Alike.becomes (h : st.Alike st') (hst : st.WellFormed) (id : ObjectId) : st.Becomes id (st.standing id) st' where
  wellFormed := h.wellFormed hst
  config := h.config
  device := h.device
  standing := fun id' => by
    rw [h.standing]
    split
    · rename_i hid
      rw [hid]
    · rfl

theorem Becomes.self {x : Standing} (h : Becomes st id x st') : st'.standing id = x := by
  rw [h.standing, if_pos rfl]

theorem Becomes.of_ne {x : Standing} (h : Becomes st id x st') (hne : id' ≠ id) :
    st'.standing id' = st.standing id' := by
  rw [h.standing, if_neg hne]

end Store

end PdfStore
