import PdfStore.Proofs.FailedWrites

/-!
# Refused calls

A call that binds, names, deletes or closes is refused for a reason that the session shows before the call
(`refusal?`), and then no part of the session has changed. A call that is not refused is carried out, unless
a table or the references are full: nothing else can go wrong once something has been changed.
-/

namespace PdfStore

/-- Whether an error tells that a table or the handles of a kind are used up. -/
def SessionError.isFull : SessionError → Bool
  | .store (.table .full) | .arenaFull _ => true
  | _ => false

namespace Store

variable {st : Store}

/-- What a store lacks to be closed: a catalog, or else bodies. -/
def lack? (st : Store) : Option StoreError :=
  match st.catalog, st.table.pending with
  | none, _ => some .missingCatalog
  | some _, [] => none
  | some _, first :: rest => some (.unwritten (rest.length + 1) first)

theorem checkClosable_eq (st : Store) :
    st.checkClosable = match st.lack? with
      | none => .ok ()
      | some e => .error e := by
  unfold checkClosable lack?
  cases st.catalog with
  | none => rfl
  | some catalog => cases st.table.pending <;> rfl

/-- A store in memory that lacks nothing is closed. -/
theorem close_of_lack? (hl : st.lack? = none) (hd : st.output.device = .memory) : ∃ report, st.close = .ok report := by
  have hc : st.checkClosable = .ok () := by rw [checkClosable_eq, hl]
  obtain ⟨catalog, hcat, -⟩ := checkClosable_ok hc
  obtain ⟨st', hf⟩ := finish_memory hd catalog
  refine ⟨⟨st.table.size, st.table.segments.length, st.position, ⟨.memory, st.file catalog⟩⟩, ?_⟩
  simp [close, hc, hcat, Operation.answer?, hf, bind, Except.bind, pure, Except.pure]

end Store

namespace Session

variable {s t : Session} {i : StoreId} {r : Reference} {st : Store} {k : Call} {α β : Type}

/-- Why a reference gets no identity in a store. -/
def unusable? (s : Session) (r : Reference) (i : StoreId) : Option SessionError :=
  if s.bindings.Knows r then if s.isOpen i then none else some (.storeClosed i)
  else some (.unknownReference r)

/-- Why a call is refused. -/
def refusal? (s : Session) : Call → Option SessionError
  | .identityFor r i | .setCatalog i r | .setInfo i r => s.unusable? r i
  | .newReferenceIn places => (places.find? fun i => !s.isOpen i).map .storeClosed
  | .delete r i =>
    if s.bindings.Knows r then if (s.bindings.view i r).isSome then none else some (.notBound r i)
    else some (.unknownReference r)
  | .close i =>
    match s.store? i with
    | none => some (.storeClosed i)
    | some st => st.lack?.map .store
  | _ => none

/-- The calls that are refused as a whole, if at all. -/
def Call.isAtomic : Call → Bool
  | .identityFor _ _ | .setCatalog _ _ | .setInfo _ _ | .newReferenceIn _ | .delete _ _ | .close _ => true
  | _ => false

/-- An operation is refused for a given reason, or is carried out, or finds no room. -/
inductive Obeys (x : Operation SessionError Session α) (s : Session) : Option SessionError → Prop
  | refused {e : SessionError} (he : x s = .error e s) : Obeys x s (some e)
  | done {a : α} {t : Session} (hok : x s = .ok a t) : Obeys x s none
  | full {e : SessionError} {t : Session} (he : x s = .error e t) (hfull : e.isFull = true) : Obeys x s none

namespace Obeys

variable {x : Operation SessionError Session α} {refusal : Option SessionError} {e : SessionError}

theorem map (h : Obeys x s refusal) (f : α → β) : Obeys (do return f (← x)) s refusal := by
  cases h with
  | refused he => exact .refused (Operation.bind_of_error he)
  | done hok => exact .done (Operation.bind_of_ok hok)
  | full he hfull => exact .full (Operation.bind_of_error he) hfull

theorem eq_of_error (h : Obeys x s refusal) (he : x s = .error e t) (hroom : e.isFull = false) :
    t = s ∧ refusal = some e := by
  cases h with
  | refused he' =>
      rw [he] at he'
      cases he'
      exact ⟨rfl, rfl⟩
  | done hok =>
      rw [he] at hok
      cases hok
  | full he' hfull =>
      rw [he] at he'
      cases he'
      rw [hroom] at hfull
      cases hfull

theorem error (h : Obeys x s (some e)) : x s = .error e s := by
  cases h with
  | refused he => exact he

end Obeys

/-! ## The calls -/

/-- What is done with the identity of a reference, if it cannot fail, adds no refusal. -/
theorem obeys_identityFor {x : ObjectId → Operation SessionError Session α} (h : s.WellFormed) (hm : s.InMemory)
    (hx : ∀ {id t}, t.WellFormed → t.bindings.view i r = some id → ∃ a u, x id t = .ok a u) :
    Obeys (identityFor r i >>= x) s (s.unusable? r i) := by
  by_cases hk : s.bindings.Knows r
  · rw [unusable?, if_pos hk]
    cases hst : s.store? i with
    | none =>
        rw [if_neg (by rw [isOpen, hst]; simp)]
        exact .refused (Operation.bind_of_error (Operation.bind_of_error (bindInto_storeClosed h hst hk)))
    | some st =>
        rw [if_pos (by rw [isOpen, hst]; rfl)]
        rcases identityFor_open h hst hk with ⟨id, t, hok, ht, -, hv⟩ | ⟨e, t, he, -, hf⟩
        · obtain ⟨a, u, hxok⟩ := hx ht.wellFormed hv
          exact .done ((Operation.bind_of_ok hok).trans hxok)
        · exact .full (Operation.bind_of_error he) (by rw [full_of_inMemory hm hf]; rfl)
  · rw [unusable?, if_neg hk]
    exact .refused (Operation.bind_of_error (Operation.bind_of_error (bindInto_unknown hk i)))

theorem obeys_named {x : ObjectId → Operation StoreError Store Unit} (h : s.WellFormed) (hm : s.InMemory)
    (hx : ∀ {st id}, st.WellFormed → st.standing id ≠ .absent →
      ∃ st', x id st = .ok () st' ∧ st.Becomes id (st.standing id) st') (r : Reference) (i : StoreId) :
    Obeys (do
      let id ← identityFor r i
      onStore i (x id)) s (s.unusable? r i) := by
  refine obeys_identityFor h hm fun {id t} ht hv => ?_
  obtain ⟨st, hst⟩ := store_of_place (ht.bound hv)
  obtain ⟨st', hok, -⟩ := hx (ht.stores hst) (place_of_view hst hv ▸ ht.bound hv)
  exact ⟨(), _, onStore_ok hst hok⟩

/-- The stores are looked at one after the other, up to the first that is closed. -/
theorem look_each_eq (places : List StoreId) (s : Session) :
    (places.forM fun i => do
      let _ ← look (·.store i) : Operation SessionError Session Unit) s =
      match places.find? fun i => !s.isOpen i with
      | none => .ok () s
      | some i => .error (.storeClosed i) s := by
  induction places with
  | nil => rfl
  | cons i rest ih =>
      cases hst : s.store? i with
      | none =>
          have hlook : look (·.store i) s = .error (.storeClosed i) s := look_of_error (by simp only [store, hst])
          rw [List.find?_cons_of_pos (by rw [isOpen, hst]; rfl)]
          exact Operation.forM_cons_error (Operation.bind_of_error hlook)
      | some st =>
          have hlook : look (·.store i) s = .ok st s := look_of_ok (by simp only [store, hst])
          rw [List.find?_cons_of_neg (by rw [isOpen, hst]; simp), ← ih]
          exact Operation.forM_cons_ok (Operation.bind_of_ok hlook)

theorem obeys_newReferenceIn (h : s.WellFormed) (hm : s.InMemory) (places : List StoreId) :
    Obeys (newReferenceIn places) s ((places.find? fun i => !s.isOpen i).map .storeClosed) := by
  have hlook := look_each_eq places s
  cases hfind : places.find? fun i => !s.isOpen i with
  | some i =>
      rw [hfind] at hlook
      exact .refused (Operation.bind_of_error hlook)
  | none =>
      rw [hfind] at hlook
      have hopen : ∀ i ∈ places, (s.store? i).isSome := fun i hi => by
        have := List.find?_eq_none.1 hfind i hi
        rwa [Bool.not_eq_true, Bool.not_eq_false'] at this
      rcases newReference_cases h with ⟨t, hnew, hext⟩ | hfull
      · have hopen' : ∀ i ∈ places, (t.store? i).isSome := fun i hi => by
          rw [(newReference_ok hnew).2]
          exact hopen i hi
        rcases bindEach_cases (P := InMemory) (fun _ hm ht _ => hm.transfer ht) hext.wellFormed
          (hm.of_extends hext (by simp)) hopen' (unbound_of_newReference hnew).1 with
          ⟨u, hok, -⟩ | ⟨e, v, j, u, he, -, hv, -, hf⟩
        · exact .done ((Operation.bind_of_ok hlook).trans ((Operation.bind_of_ok hnew).trans
            (Operation.bind_of_ok hok)))
        · refine .full ((Operation.bind_of_ok hlook).trans ((Operation.bind_of_ok hnew).trans
            (Operation.bind_of_error he))) ?_
          rw [full_of_inMemory hv hf]
          rfl
      · exact .full ((Operation.bind_of_ok hlook).trans (Operation.bind_of_error hfull)) rfl

theorem obeys_delete (h : s.WellFormed) (r : Reference) (i : StoreId) :
    Obeys (delete r i) s (s.refusal? (.delete r i)) := by
  by_cases hk : s.bindings.Knows r
  · rw [refusal?, if_pos hk]
    cases hv : s.bindings.view i r with
    | none => exact .refused (delete_unbound hk hv)
    | some id =>
        obtain ⟨out, t, -, -, hok, -⟩ := delete_bound h hv
        exact .done hok
  · rw [refusal?, if_neg hk]
    exact .refused (delete_unknown hk i)

theorem obeys_close (h : s.WellFormed) (hm : s.InMemory) (i : StoreId) :
    Obeys (close i) s (s.refusal? (.close i)) := by
  cases hst : s.store? i with
  | none =>
      simp only [refusal?, hst]
      exact .refused (close_closed hst)
  | some st =>
      have hc := st.checkClosable_eq
      simp only [refusal?, hst]
      cases hl : st.lack? with
      | some e =>
          rw [hl] at hc
          exact .refused (close_unready hst hc)
      | none =>
          rw [hl] at hc
          obtain ⟨t, hclose, -⟩ := close_closable h hst hc
          obtain ⟨report, hreport⟩ := Store.close_of_lack? hl (hm i st hst)
          rw [hreport] at hclose
          exact .done hclose

theorem obeys_perform (h : s.WellFormed) (hm : s.InMemory) (hk : k.isAtomic = true) :
    Obeys (perform k) s (s.refusal? k) := by
  cases k with
  | identityFor r i => exact obeys_identityFor h hm fun _ _ => ⟨_, _, rfl⟩
  | setCatalog i r => exact (obeys_named h hm Store.setCatalog_live r i).map fun _ => Answer.done
  | setInfo i r => exact (obeys_named h hm Store.setInfo_live r i).map fun _ => Answer.done
  | newReferenceIn places => exact (obeys_newReferenceIn h hm places).map Answer.reference
  | delete r i => exact (obeys_delete h r i).map Answer.released
  | close i => exact (obeys_close h hm i).map Answer.closed
  | _ => cases hk

/-! ## Runs -/

variable {log : Log} {filters : Registry} {e : SessionError}

/-- Whatever calls have been made: a call that binds, names, deletes or closes and fails has changed nothing,
and failed for the reason that could be read off the session, unless there was no room. Nor does writing a
reference out change anything. -/
theorem unchanged_of_error (hrun : Runs perform (ofFilters filters) log s) (hmem : ∀ ev ∈ log, ev.call.inMemory) :
    (∀ {k e t}, k.isAtomic → perform k s = .error e t → e.isFull = false → t = s ∧ s.refusal? k = some e) ∧
      (∀ {k e}, k.isAtomic → s.refusal? k = some e → perform k s = .error e s) ∧
      ∀ {r place e t}, look (token r place) s = .error e t → t = s := by
  obtain ⟨h, hm⟩ := wellFormed_run hrun hmem
  refine ⟨fun hk he hroom => (obeys_perform h hm hk).eq_of_error he hroom, fun hk hr => ?_, fun {r place e t} he => ?_⟩
  · exact (hr ▸ obeys_perform h hm hk).error
  · cases htoken : s.token r place with
    | ok b =>
        rw [look_of_ok htoken] at he
        cases he
    | error e' =>
        rw [look_of_error htoken] at he
        cases he
        rfl

/-- A store is closed, and another one has a catalog without a body. -/
theorem unchanged_of_error_beside_closed : ∃ log s, Runs perform (ofFilters .standard) log s ∧
    log.map Event.call = [.close ⟨1⟩, .setCatalog ⟨1⟩ ⟨1⟩, .writeNew ⟨1⟩ .null, .setCatalog ⟨0⟩ ⟨0⟩, .newReference,
      .createStore .memory ⟨"1.4", false, 2, 2⟩, .createStore .memory ⟨"1.4", false, 2, 2⟩] ∧
    (∀ ev ∈ log, ev.call.inMemory) ∧
    perform (.newReferenceIn [⟨0⟩, ⟨1⟩]) s = .error (.storeClosed ⟨1⟩) s ∧
    perform (.setInfo ⟨0⟩ ⟨2⟩) s = .error (.unknownReference ⟨2⟩) s ∧
    perform (.delete ⟨1⟩ ⟨0⟩) s = .error (.notBound ⟨1⟩ ⟨0⟩) s ∧
    perform (.close ⟨0⟩) s = .error (.store (.unwritten 1 ⟨1, 0⟩)) s ∧
    ∀ {place e t}, look (token ⟨1⟩ place) s = .error e t → t = s := by
  let calls : List Call := [.createStore .memory ⟨"1.4", false, 2, 2⟩, .createStore .memory ⟨"1.4", false, 2, 2⟩,
    .newReference, .setCatalog ⟨0⟩ ⟨0⟩, .writeNew ⟨1⟩ .null, .setCatalog ⟨1⟩ ⟨1⟩, .close ⟨1⟩]
  have hrun := runs_events perform calls (ofFilters .standard)
  have hmem : ∀ ev ∈ Operation.events perform calls (ofFilters .standard), ev.call.inMemory := by
    decide +kernel
  have hseen : let s := Operation.after perform calls (ofFilters .standard)
      s.isOpen ⟨0⟩ = true ∧ s.isOpen ⟨1⟩ = false ∧ s.bindings.entries.length = 2 ∧
        s.bindings.view ⟨0⟩ ⟨1⟩ = none ∧
        (s.store? ⟨0⟩).map (fun st => (st.catalog, st.table.pending)) = some (some ⟨1, 0⟩, [⟨1, 0⟩]) := by
    decide +kernel
  have hcalls := Operation.map_call_events perform calls (ofFilters .standard)
  -- What the calls lead to is not to be computed again.
  generalize Operation.after perform calls (ofFilters .standard) = s at hrun hseen
  generalize Operation.events perform calls (ofFilters .standard) = log at hrun hmem hcalls
  obtain ⟨hopen, hclosed, hcount, hview, hstore⟩ := hseen
  obtain ⟨st, hst, hpair⟩ := Option.map_eq_some_iff.1 hstore
  obtain ⟨hcat, hp⟩ := Prod.mk.inj hpair
  obtain ⟨-, hrefused, htoken⟩ := unchanged_of_error hrun hmem
  refine ⟨log, s, hrun, hcalls, hmem, hrefused rfl ?_, hrefused rfl ?_, hrefused rfl ?_, hrefused rfl ?_, htoken⟩
  · simp [refusal?, hopen, hclosed]
  · simp [refusal?, unusable?, Bindings.Knows, hcount]
  · simp [refusal?, Bindings.Knows, hcount, hview]
  · simp [refusal?, hst, Store.lack?, hcat, hp]

end Session

end PdfStore
