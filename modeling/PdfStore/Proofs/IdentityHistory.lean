import PdfStore.Proofs.NewBindings
import PdfStore.Proofs.SessionHistory

/-!
# The identities that references have had

A store gives an identity to one reference and never to another one, also when the slot is used again. So
what has been written under an identity that a reference has lost names nothing any more. Nothing is assumed
of the calls: they may fail, devices and tables may be full, and stores may be closed.
-/

namespace PdfStore.Session

variable {s t : Session} {i j : StoreId} {r q : Reference} {id : ObjectId} {k : Call} {log : Log}
variable {ev : Event Call SessionError Session Answer}

/-! ## Calls that bind keep sessions well-formed -/

def StaysWellFormed (s t : Session) : Prop := s.WellFormed → t.WellFormed

instance : IsPreorder Session StaysWellFormed where
  refl _ h := h
  trans _ _ _ h h' hs := h' (h hs)

theorem stays_of_fetch {α : Type} {x : Operation SessionError Session α} (i : StoreId)
    (hx : ∀ {s : Session}, s.WellFormed → (∃ a t, x s = .ok a t ∧ Transfer (· = i) s.fetching s t ∧
        Settled (· = i) s.fetching t) ∨ (∃ e, x s = .error e s) ∨
      ∃ e t, x s = .error e t ∧ Transfer (· = i) s.fetching s t ∧ s.Full i e) : x.Keeps StaysWellFormed := by
  intro s h
  rcases hx h with ⟨a, t, hok, ht, -⟩ | ⟨e, he⟩ | ⟨e, t, he, ht, -⟩
  · rw [Operation.next_ok hok]
    exact ht.wellFormed
  · rwa [Operation.next_error he]
  · rw [Operation.next_error he]
    exact ht.wellFormed

theorem stays_identityFor (r : Reference) (i : StoreId) : (identityFor r i).Keeps StaysWellFormed :=
  stays_of_fetch i fun h =>
    (identityFor_cases h r i).imp_left fun ⟨id, t, hok, ht, hset, _⟩ => ⟨id, t, hok, ht, hset⟩

theorem stays_setCatalog (i : StoreId) (r : Reference) : (setCatalog i r).Keeps StaysWellFormed :=
  stays_of_fetch i fun h =>
    (named_cases h Store.setCatalog_live r i).imp_left fun ⟨t, hok, ht, hset⟩ => ⟨(), t, hok, ht, hset⟩

theorem stays_setInfo (i : StoreId) (r : Reference) : (setInfo i r).Keeps StaysWellFormed :=
  stays_of_fetch i fun h =>
    (named_cases h Store.setInfo_live r i).imp_left fun ⟨t, hok, ht, hset⟩ => ⟨(), t, hok, ht, hset⟩

theorem stays_newReference : newReference.Keeps StaysWellFormed := by
  intro s h
  rcases newReference_cases h with ⟨t, hok, he⟩ | hfull
  · rw [Operation.next_ok hok]
    exact he.wellFormed
  · rwa [Operation.next_error hfull]

theorem stays_newReferenceIn (places : List StoreId) : (newReferenceIn places).Keeps StaysWellFormed := by
  intro s h
  rcases continues_newReferenceIn h places with ⟨t, hok, hc⟩ | ⟨e, t, he, hc⟩
  · rw [Operation.next_ok hok]
    exact hc.wellFormed
  · rw [Operation.next_error he]
    exact hc.wellFormed

theorem stays_write (r : Reference) (o : Object) : (write r o).Keeps StaysWellFormed := by
  intro s h
  rcases continues_write h r o with ⟨t, hok, hc, -⟩ | ⟨e, t, he, hc⟩ | ⟨e, t, he, hc, -⟩
  · rw [Operation.next_ok hok]
    exact hc.wellFormed
  · rw [Operation.next_error he]
    exact hc.wellFormed
  · rw [Operation.next_error he]
    exact hc.wellFormed

theorem stays_writeNew (i : StoreId) (o : Object) : (writeNew i o).Keeps StaysWellFormed :=
  (stays_newReferenceIn [i]).bind fun r => (stays_write r o).bind fun _ => .pure r

/-! ## One call -/

/-- Whether an event may take the identity of a reference in a store back. -/
def takesBack (ev : Event Call SessionError Session Answer) (i : StoreId) (r : Reference) : Prop :=
  ev.call = .delete r i ∧ ev.outcome.isOk = true ∨ ev.call = .close i

/-- What every event does to the identities of references. -/
structure Evolves (ev : Event Call SessionError Session Answer) : Prop where
  wellFormed : ev.after.WellFormed
  size : ev.before.stores.length ≤ ev.after.stores.length
  store : ∀ {i st'}, i.index < ev.before.stores.length → ev.after.store? i = some st' →
    ∃ st, ev.before.store? i = some st ∧ st.Grows (ev.after.Names i) st'
  bound : ∀ {i r id}, ev.after.Names i r id → ev.before.Names i r id ∨ ∃ st, ev.before.store? i = some st ∧
    ¬ st.table.Past id ∧ ∀ st', ev.after.store? i = some st' → st'.table.Past id
  lost : ∀ {i r id}, ev.before.Names i r id → ¬ ev.after.Names i r id → ev.after.bindings.view i r = none ∧
    takesBack ev i r ∧ ∀ st', ev.after.store? i = some st' → ¬ st'.table.Live id

theorem evolves_of_binds (h : s.WellFormed) (hw : (perform k).Keeps StaysWellFormed) (hb : (perform k).Keeps Binds) :
    Evolves (.ofCall perform k s) where
  wellFormed := hw s h
  size := Nat.le_of_eq (hb s).size.symm
  store := fun _ hst => (hb s).store hst
  bound := fun hv => ((hb s).bound hv).imp_right fun ⟨st, hst, hnew⟩ => ⟨st, hst, hnew (h.stores hst).chained⟩
  lost := fun hv hn => absurd ((hb s).kept hv) hn

theorem evolves_of_extends {new : Option Store} (he : Extends new s ((perform k).next s)) :
    Evolves (.ofCall perform k s) where
  wellFormed := he.wellFormed
  size := he.size
  store := fun hlt hst => by
    rcases he.store hst with hst' | ⟨rfl, -⟩
    · exact ⟨_, hst', Std.Refl.refl _⟩
    · exact absurd hlt (Nat.lt_irrefl _)
  bound := fun hv => Or.inl ((he.view _ _).symm.trans hv)
  lost := fun hv hn => absurd ((he.view _ _).trans hv) hn

theorem evolves_of_refusal {e : SessionError} (h : s.WellFormed) (he : perform k s = .error e s) :
    Evolves (.ofCall perform k s) := by
  have hx : Extends none s ((perform k).next s) := by
    rw [Operation.next_error he]
    exact .refl h
  exact evolves_of_extends hx

theorem openStore_evolves (h : s.WellFormed) (st : { st : Store // st.Reachable }) :
    Evolves (.ofCall perform (.openStore st) s) := by
  rcases openStore_cases h st.2.wellFormed with ⟨t, hok, he, -⟩ | hfull
  · have hperform : perform (.openStore st) s = .ok (.store ⟨s.stores.length⟩) t := Operation.bind_of_ok hok
    exact evolves_of_extends (Operation.next_ok hperform ▸ he)
  · exact evolves_of_refusal h (Operation.bind_of_error hfull)

theorem createStore_evolves (h : s.WellFormed) (device : Device) (config : Config) :
    Evolves (.ofCall perform (.createStore device config) s) := by
  cases hst : Store.create device config with
  | error e => exact evolves_of_refusal h (Operation.bind_of_error (createStore_of_error hst))
  | ok st =>
      have hcreate : createStore device config s = openStore st s := createStore_of_ok hst
      rcases openStore_cases h (Store.create_ok hst).1 with ⟨t, hok, he, -⟩ | hfull
      · have hperform : perform (.createStore device config) s = .ok (.store ⟨s.stores.length⟩) t :=
          Operation.bind_of_ok (hcreate.trans hok)
        exact evolves_of_extends (Operation.next_ok hperform ▸ he)
      · exact evolves_of_refusal h (Operation.bind_of_error (hcreate.trans hfull))

/-- Where references lose identities, nothing else happens to bindings and stores. -/
theorem evolves_of_drops {lost : StoreId → Reference → Prop} {st : Store} {x : Option Store}
    (hd : Drops lost s ((perform k).next s)) (hst : s.store? i = some st)
    (hs : ((perform k).next s).stores = s.stores.set i.index x)
    (hx : ∀ st', x = some st' → st.Grows (((perform k).next s).Names i) st')
    (hl : ∀ {j q id}, lost j q → s.Names j q id → takesBack (.ofCall perform k s) j q ∧
      ∀ st', ((perform k).next s).store? j = some st' → ¬ st'.table.Live id) : Evolves (.ofCall perform k s) where
  wellFormed := hd.wellFormed
  size := Nat.le_of_eq hd.size.symm
  store := fun {j st'} _ hj => by
    rw [Event.ofCall, store?_set hst x hs] at hj
    split at hj
    · rename_i heq
      exact ⟨st, heq ▸ hst, heq ▸ hx st' hj⟩
    · exact ⟨st', hj, Std.Refl.refl _⟩
  bound := fun {j q id} hv => by
    by_cases hjq : lost j q
    · rw [Event.ofCall, Names, hd.view_lost hjq] at hv
      cases hv
    · exact Or.inl ((hd.view hjq).symm.trans hv)
  lost := fun {j q id} hv hn => by
    by_cases hjq : lost j q
    · exact ⟨hd.view_lost hjq, hl hjq hv⟩
    · exact absurd ((hd.view hjq).trans hv) hn

theorem delete_evolves (h : s.WellFormed) (r : Reference) (i : StoreId) :
    Evolves (.ofCall perform (.delete r i) s) := by
  by_cases hk : s.bindings.Knows r
  · cases hv : s.bindings.view i r with
    | none => exact evolves_of_refusal h (Operation.bind_of_error (delete_unbound hk hv))
    | some id =>
        obtain ⟨out, t, st, st', hok, hd, hst, hdel, hs⟩ := delete_bound h hv
        have hperform : perform (.delete r i) s = .ok (.released out) t := Operation.bind_of_ok hok
        have hnext := Operation.next_ok hperform
        refine evolves_of_drops (hnext ▸ hd) hst (hnext ▸ hs) ?_ ?_
        · rintro _ ⟨⟩
          exact Operation.next_ok hdel ▸ Store.keeps_delete id st
        · rintro j q id' ⟨rfl, rfl⟩ hv'
          obtain rfl : id = id' := Option.some.inj (hv.symm.trans hv')
          refine ⟨Or.inl ⟨rfl, by rw [Event.ofCall, Operation.outcome_ok hperform]; rfl⟩, fun st₁ hj => ?_⟩
          rw [hnext, store?_set hst _ hs, if_pos rfl] at hj
          cases hj
          exact Store.not_live_of_delete (h.stores hst) hdel
  · exact evolves_of_refusal h (Operation.bind_of_error (delete_unknown hk i))

/-- Whatever the end of the output leads to, the session has been changed before. -/
theorem next_of_close {st : Store} (h : close i s = Operation.ofExcept .store st.close t) : (close i).next s = t := by
  have hnext : (close i).next s = (Operation.ofExcept SessionError.store st.close).next t := by
    simp only [Operation.next, h]
  rw [hnext, Operation.next_ofExcept]

theorem close_evolves (h : s.WellFormed) (i : StoreId) : Evolves (.ofCall perform (.close i) s) := by
  cases hst : s.store? i with
  | none => exact evolves_of_refusal h (Operation.bind_of_error (close_closed hst))
  | some st =>
      cases hc : st.checkClosable with
      | error e => exact evolves_of_refusal h (Operation.bind_of_error (close_unready hst hc))
      | ok _ =>
          obtain ⟨t, hclose, hd, hs⟩ := close_closable h hst hc
          have hnext : (perform (.close i)).next s = t :=
            (Operation.next_bind_pure (close i) Answer.closed s).trans (next_of_close hclose)
          refine evolves_of_drops (hnext ▸ hd) hst (hnext ▸ hs) (by simp) ?_
          rintro j q id rfl -
          refine ⟨Or.inr rfl, fun st' hj => ?_⟩
          rw [hnext, store?_set hst _ hs, if_pos rfl] at hj
          cases hj

/-- The step of a run. -/
theorem perform_evolves (h : s.WellFormed) (k : Call) : Evolves (.ofCall perform k s) := by
  cases k with
  | openStore st => exact openStore_evolves h st
  | createStore device config => exact createStore_evolves h device config
  | newReference => exact evolves_of_binds h (stays_newReference.map _) (keeps_newReference.map _)
  | newReferenceIn places =>
      exact evolves_of_binds h ((stays_newReferenceIn places).map _) ((keeps_newReferenceIn places).map _)
  | identityFor r i => exact evolves_of_binds h ((stays_identityFor r i).map _) ((keeps_identityFor r i).map _)
  | write r o =>
      exact evolves_of_binds h ((stays_write r o).bind fun _ => .pure _) ((keeps_write r o).bind fun _ => .pure _)
  | writeNew i o => exact evolves_of_binds h ((stays_writeNew i o).map _) ((keeps_writeNew i o).map _)
  | setCatalog i r =>
      exact evolves_of_binds h ((stays_setCatalog i r).bind fun _ => .pure _)
        ((keeps_setCatalog i r).bind fun _ => .pure _)
  | setInfo i r =>
      exact evolves_of_binds h ((stays_setInfo i r).bind fun _ => .pure _) ((keeps_setInfo i r).bind fun _ => .pure _)
  | delete r i => exact delete_evolves h r i
  | close i => exact close_evolves h i
  | register c => exact evolves_of_extends (extends_register h c)

/-! ## Runs -/

/-- A reference has had an identity in a store after some call. -/
def Had (log : Log) (i : StoreId) (r : Reference) (id : ObjectId) : Prop := ∃ ev ∈ log, ev.after.Names i r id

instance : Decidable (Had log i r id) := inferInstanceAs (Decidable (∃ ev ∈ log, _))

/-- The invariant of a run: identities that references have had are never given out again, belong to one
reference only, and are invalid where the reference has lost them. -/
structure Tracks (log : Log) (s : Session) : Prop where
  wellFormed : s.WellFormed
  had : ∀ {i r id}, s.Names i r id → Had log i r id
  opened : ∀ {i r id}, Had log i r id → i.index < s.stores.length
  past : ∀ {i r id st}, Had log i r id → s.store? i = some st → st.table.Past id
  gone : ∀ {i r id st}, Had log i r id → ¬ s.Names i r id → s.store? i = some st → ¬ st.table.Live id
  one : ∀ {i r q id}, Had log i r id → Had log i q id → r = q

theorem had_cons : Had (ev :: log) i r id ↔ ev.after.Names i r id ∨ Had log i r id := by
  simp [Had]

namespace Tracks

theorem first (filters : Registry) : Tracks [] (ofFilters filters) where
  wellFormed := wellFormed_ofFilters filters
  had := fun hv => by cases hv
  opened := fun ⟨_, hev, _⟩ => (List.not_mem_nil hev).elim
  past := fun ⟨_, hev, _⟩ => (List.not_mem_nil hev).elim
  gone := fun ⟨_, hev, _⟩ => (List.not_mem_nil hev).elim
  one := fun ⟨_, hev, _⟩ => (List.not_mem_nil hev).elim

theorem fresh (h : Tracks log ev.before) (he : Evolves ev) (hv : ev.after.Names i r id)
    (hn : ¬ ev.before.Names i r id) (q : Reference) : ¬ Had log i q id := by
  intro hq
  obtain ⟨st, hst, hnew, -⟩ := (he.bound hv).resolve_left hn
  exact hnew (h.past hq hst)

/-- A reference that has an identity now is the only one that has had it. -/
theorem eq_of_had (h : Tracks log ev.before) (he : Evolves ev) (hv : ev.after.Names i r id) (hq : Had log i q id) :
    r = q := by
  by_cases hb : ev.before.Names i r id
  · exact h.one (h.had hb) hq
  · exact absurd hq (h.fresh he hv hb q)

theorem past_after {st : Store} (h : Tracks log ev.before) (he : Evolves ev) (hh : Had log i r id)
    (hst : ev.after.store? i = some st) : st.table.Past id := by
  obtain ⟨st₀, hst₀, hg⟩ := he.store (h.opened hh) hst
  exact hg.table.past (h.wellFormed.stores hst₀).chained (h.past hh hst₀)

theorem step (h : Tracks log ev.before) (he : Evolves ev) : Tracks (ev :: log) ev.after where
  wellFormed := he.wellFormed
  had := fun hv => had_cons.2 (Or.inl hv)
  opened := fun hh => by
    rcases had_cons.1 hh with hv | hh
    · obtain ⟨st, hst⟩ := store_of_place (he.wellFormed.bound hv)
      exact lt_of_store? hst
    · exact Nat.lt_of_lt_of_le (h.opened hh) he.size
  past := fun hh hst => by
    rcases had_cons.1 hh with hv | hh
    · rcases he.bound hv with hv | ⟨-, -, -, hp⟩
      · exact h.past_after he (h.had hv) hst
      · exact hp _ hst
    · exact h.past_after he hh hst
  gone := fun {i r id st} hh hn hst hlive => by
    have hh := (had_cons.1 hh).resolve_left hn
    by_cases hv : ev.before.Names i r id
    · exact (he.lost hv hn).2.2 st hst hlive
    · obtain ⟨st₀, hst₀, hg⟩ := he.store (h.opened hh) hst
      exact h.gone hh hv hst₀ (hg.table.live (h.wellFormed.stores hst₀).chained (h.past hh hst₀) hlive)
  one := fun hr hq => by
    rcases had_cons.1 hr with hr | hr
    · rcases had_cons.1 hq with hq | hq
      · exact he.wellFormed.distinct hr hq
      · exact h.eq_of_had he hr hq
    · rcases had_cons.1 hq with hq | hq
      · exact (h.eq_of_had he hq hr).symm
      · exact h.one hr hq

end Tracks

variable {filters : Registry}

theorem tracks_run (hrun : Runs perform (ofFilters filters) log s) : Tracks log s := by
  induction hrun with
  | none => exact .first filters
  | call _ k ih => exact ih.step (perform_evolves ih.wellFormed k)

/-- What came before an event of a run, and what the event has done. -/
theorem tracks_earlier {newer older : Log} (hrun : Runs perform (ofFilters filters) (newer ++ ev :: older) s) :
    Tracks older ev.before ∧ Evolves ev := by
  obtain ⟨k, t, rfl, holder⟩ := hrun.earlier
  exact ⟨tracks_run holder, perform_evolves (tracks_run holder).wellFormed k⟩

theorem evolves_of_mem (hrun : Runs perform (ofFilters filters) log s) (hev : ev ∈ log) : Evolves ev := by
  obtain ⟨newer, older, rfl⟩ := List.append_of_mem hev
  exact (tracks_earlier hrun).2

theorem token_of_ok {b : Bytes} (h : s.token r (some i) = .ok b) :
    ∃ id, s.Names i r id ∧ b = Bytes.ofString id.token := by
  unfold token at h
  cases hb : s.binding r with
  | error e =>
      rw [hb] at h
      cases h
  | ok binding =>
      cases ht : s.table i with
      | error e => simp [hb, ht, bind, Except.bind] at h
      | ok refs =>
          have hbytes : ((Object.indirect r).toBytes (some refs)).mapError SessionError.object = .ok b := by
            simpa [hb, ht, bind, Except.bind, pure, Except.pure] using h
          rw [Object.toBytes_indirect, refs_of_table ht] at hbytes
          cases hv : s.bindings.view i r with
          | none => simp [hv, Except.mapError] at hbytes
          | some id =>
              simp only [hv, Except.mapError, Except.ok.injEq] at hbytes
              exact ⟨id, hv, hbytes.symm⟩

/-- Whatever calls have been made, failed ones included: no identity of a store has ever belonged to two
references. A reference loses one only when it is deleted from the store or the store is closed, and gets
another one that no reference has had there before. Of the identities that it has had, each is the one that it
has now or is not valid any more; and what has been written out for a reference, by itself or in the body of an
object, is an identity that it has had. -/
theorem identities_of_run (hrun : Runs perform (ofFilters filters) log s) :
    (∀ {i r q id}, Had log i r id → Had log i q id → r = q) ∧
    (∀ {ev i r id}, ev ∈ log → ev.before.Names i r id → ¬ ev.after.Names i r id →
      ev.after.bindings.view i r = none ∧ takesBack ev i r) ∧
    (∀ {newer ev older i r id}, log = newer ++ ev :: older → ev.after.Names i r id → ¬ ev.before.Names i r id →
      ∀ q, ¬ Had older i q id) ∧
    (∀ {i r id}, Had log i r id → s.Names i r id ∨
      ∀ {st}, s.store? i = some st → ∃ e, st.table.validate id = .error e) ∧
    (∀ {ev i r b}, ev ∈ log → ev.after.token r (some i) = .ok b →
      ∃ id, Had log i r id ∧ b = Bytes.ofString id.token) ∧
    ∀ {ev i st st'}, ev ∈ log → ev.before.store? i = some st → ev.after.store? i = some st' →
      ∃ bodies : List Bytes, (∀ b ∈ bodies, Store.BodyOf (Had log i) b) ∧
        st'.output.content = st.output.content ++ bodies.flatten := by
  have h := tracks_run hrun
  refine ⟨h.one, fun hev hv hn => ?_, ?_, fun {i r id} hh => ?_, fun hev htoken => ?_, fun hev hst hst' => ?_⟩
  · obtain ⟨hnone, hback, -⟩ := (evolves_of_mem hrun hev).lost hv hn
    exact ⟨hnone, hback⟩
  · rintro newer ev older i r id rfl hv hn
    obtain ⟨holder, he⟩ := tracks_earlier hrun
    exact holder.fresh he hv hn
  · by_cases hv : s.Names i r id
    · exact Or.inl hv
    · exact Or.inr fun hst => (Table.not_live_iff (h.wellFormed.stores hst).chained).1 (h.gone hh hv hst)
  · obtain ⟨id, hv, hb⟩ := token_of_ok htoken
    exact ⟨id, ⟨_, hev, hv⟩, hb⟩
  · obtain ⟨st₀, hst₀, hg⟩ := (evolves_of_mem hrun hev).store (lt_of_store? hst) hst'
    rw [hst] at hst₀
    cases hst₀
    obtain ⟨bodies, hb, hcontent⟩ := hg.bodies
    exact ⟨bodies, fun b hmem => (hb b hmem).mono fun hv => ⟨_, hev, hv⟩, hcontent⟩

/-- A reference loses its identity to another reference, at the next generation, and gets a new one when an
object that mentions it is written. -/
theorem identities_of_run_after_delete : ∃ log s st, Runs perform (ofFilters .standard) log s ∧
    log.map Event.call = [.writeNew ⟨0⟩ (.indirect ⟨0⟩), .newReferenceIn [⟨0⟩], .delete ⟨0⟩ ⟨0⟩,
      .newReferenceIn [⟨0⟩], .createStore .memory ⟨"1.4", false, 2, 2⟩] ∧
    s.store? ⟨0⟩ = some st ∧ Had log ⟨0⟩ ⟨0⟩ ⟨1, 0⟩ ∧ s.Names ⟨0⟩ ⟨1⟩ ⟨1, 1⟩ ∧ s.Names ⟨0⟩ ⟨0⟩ ⟨3, 0⟩ ∧
    (∀ q, Had log ⟨0⟩ q ⟨1, 0⟩ → q = ⟨0⟩) ∧ (∃ e, st.table.validate ⟨1, 0⟩ = .error e) ∧
    ∀ q, ¬ Had log.tail ⟨0⟩ q ⟨3, 0⟩ := by
  let calls : List Call := [.createStore .memory ⟨"1.4", false, 2, 2⟩, .newReferenceIn [⟨0⟩], .delete ⟨0⟩ ⟨0⟩,
    .newReferenceIn [⟨0⟩], .writeNew ⟨0⟩ (.indirect ⟨0⟩)]
  have hrun := runs_events perform calls (ofFilters .standard)
  have hcalls := Operation.map_call_events perform calls (ofFilters .standard)
  have hhad : Had (Operation.events perform calls (ofFilters .standard)) ⟨0⟩ ⟨0⟩ ⟨1, 0⟩ := by
    decide +kernel
  have hseen : let s := Operation.after perform calls (ofFilters .standard)
      s.isOpen ⟨0⟩ = true ∧ s.Names ⟨0⟩ ⟨1⟩ ⟨1, 1⟩ ∧ s.Names ⟨0⟩ ⟨0⟩ ⟨3, 0⟩ := by
    decide +kernel
  have hlast : (Operation.events perform calls (ofFilters .standard)).head?.map (fun ev =>
      (ev.before.bindings.view ⟨0⟩ ⟨0⟩, ev.after.bindings.view ⟨0⟩ ⟨0⟩)) = some (none, some ⟨3, 0⟩) := by
    decide +kernel
  -- What the calls lead to is not to be computed again.
  generalize Operation.after perform calls (ofFilters .standard) = s at hrun hseen
  generalize Operation.events perform calls (ofFilters .standard) = log at hrun hcalls hhad hlast
  obtain ⟨hopen, hother, hnow⟩ := hseen
  obtain ⟨st, hst⟩ := Option.isSome_iff_exists.1 hopen
  obtain ⟨hone, -, hfresh, hstale, -⟩ := identities_of_run hrun
  refine ⟨log, s, st, hrun, hcalls, hst, hhad, hother, hnow, fun q hq => hone hq hhad, ?_, ?_⟩
  · refine (hstale hhad).resolve_left (fun hv => ?_) hst
    rw [Names, hnow] at hv
    cases hv
  · cases log with
    | nil => cases hcalls
    | cons ev older =>
        obtain ⟨hbefore, hafter⟩ := Prod.mk.inj (Option.some.inj hlast)
        refine hfresh (List.nil_append _).symm hafter fun hv => ?_
        rw [Names, hbefore] at hv
        cases hv

end PdfStore.Session
