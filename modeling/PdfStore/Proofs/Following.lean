import PdfStore.Proofs.Agreement
import PdfStore.Proofs.SessionHistory
import PdfStore.Session.Dereference

/-!
# Following references

What is found at the end of a chain of references depends only on the objects that the references of the
chain have in their sources. Without deletions all of them are bound wherever the first one is, so a store
that is closed takes no member of a chain away from the references that are bound elsewhere.
-/

namespace PdfStore.Session

variable {s t : Session} {i j : StoreId} {r q : Reference} {id : ObjectId} {o : Object} {l : List Reference}

/-! ## The object in the source -/

theorem sourceObject_unknown (h : ¬ s.bindings.Knows r) :
    s.sourceObject r = .error (.unknownReference r) := by
  simp only [sourceObject, binding, Bindings.get_unknown h, bind, Except.bind]

theorem sourceObject_none (h : s.WellFormed) (hk : s.bindings.Knows r) (ho : s.origin r = none) :
    s.sourceObject r = .error (.noSource r) := by
  obtain ⟨b, hb, hget⟩ := Bindings.get_known hk
  rcases origin?_cases h hb with ⟨hnone, -⟩ | ⟨j, id, o, c, -, hsome, -⟩
  · simp only [sourceObject, binding, hget, bind, Except.bind, hnone]
    rfl
  · rw [ho] at hsome
    cases hsome

theorem sourceObject_some (h : s.WellFormed) (ho : s.origin r = some o) : s.sourceObject r = .ok o := by
  obtain ⟨i, c, -, hp⟩ := origin_eq_some ho
  have hne : s.place i r ≠ .absent := by simp [hp]
  obtain ⟨id, hv⟩ := view_of_place hne
  obtain ⟨b, hb, hget⟩ := Bindings.get_known (Bindings.known_of_view hv)
  rcases origin?_cases h hb with ⟨-, hnone⟩ | ⟨j, id, o', c', hsome, ho', hv', hp'⟩
  · rw [ho] at hnone
    cases hnone
  · rw [ho] at ho'
    cases ho'
    have hne' : s.place j r ≠ .absent := by simp [hp']
    obtain ⟨st, hst⟩ := store_of_place hne'
    rw [place_of_view hst hv'] at hp'
    simp only [sourceObject, binding, hget, bind, Except.bind, hsome, store, hst, Store.resolve_written hp',
      Except.mapError]

theorem origin_of_sourceObject (h : s.WellFormed) (ho : s.sourceObject r = .ok o) : s.origin r = some o := by
  by_cases hk : s.bindings.Knows r
  · cases hr : s.origin r with
    | none =>
        rw [sourceObject_none h hk hr] at ho
        cases ho
    | some o' =>
        rw [sourceObject_some h hr] at ho
        cases ho
        rfl
  · rw [sourceObject_unknown hk] at ho
    cases ho

/-- Sessions with the same references and the same objects in the sources find the same. -/
theorem sourceObject_congr (h : s.WellFormed) (ht : t.WellFormed)
    (hcount : t.bindings.entries.length = s.bindings.entries.length) (ho : t.origin r = s.origin r) :
    t.sourceObject r = s.sourceObject r := by
  have hknows : t.bindings.Knows r ↔ s.bindings.Knows r := by
    rw [Bindings.Knows, Bindings.Knows, hcount]
  by_cases hk : s.bindings.Knows r
  · cases hr : s.origin r with
    | none => rw [sourceObject_none h hk hr, sourceObject_none ht (hknows.2 hk) (ho.trans hr)]
    | some o => rw [sourceObject_some h hr, sourceObject_some ht (ho.trans hr)]
  · rw [sourceObject_unknown hk, sourceObject_unknown fun hk' => hk (hknows.1 hk')]

/-! ## Chains -/

theorem follow_next (hr : r ∈ l) (ho : s.sourceObject r = .ok (.indirect q)) :
    s.follow l r = s.follow (l.erase r) q := by
  rw [follow, dif_pos hr, ho]
  rfl

theorem follow_error {e : SessionError} (hr : r ∈ l) (ho : s.sourceObject r = .error e) :
    s.follow l r = .error e := by
  rw [follow, dif_pos hr, ho]
  rfl

theorem follow_end (hr : r ∈ l) (ho : s.sourceObject r = .ok o) (hn : ∀ q, o ≠ .indirect q) :
    s.follow l r = .ok o := by
  rw [follow, dif_pos hr, ho]
  cases o with
  | indirect q => exact absurd rfl (hn q)
  | _ => rfl

theorem follow_visited (hk : s.bindings.Knows r) (hr : r ∉ l) : s.follow l r = .error (.cyclicReference r) := by
  obtain ⟨b, -, hget⟩ := Bindings.get_known hk
  rw [follow, dif_neg hr]
  simp only [binding, hget, bind, Except.bind]

theorem follow_unknown (hk : ¬ s.bindings.Knows r) : s.follow l r = .error (.unknownReference r) := by
  by_cases hr : r ∈ l
  · exact follow_error hr (sourceObject_unknown hk)
  · rw [follow, dif_neg hr]
    simp only [binding, Bindings.get_unknown hk, bind, Except.bind]

/-- A chain is followed alike in two sessions that have the same objects for its members. -/
theorem follow_congr {p : Reference → Prop} (hcount : t.bindings.entries.length = s.bindings.entries.length)
    (hsame : ∀ q, p q → t.sourceObject q = s.sourceObject q)
    (hnext : ∀ q q', p q → s.sourceObject q = .ok (.indirect q') → p q') {r : Reference} (hr : p r)
    (l : List Reference) : t.follow l r = s.follow l r := by
  by_cases hk : s.bindings.Knows r
  · have hk' : t.bindings.Knows r := by
      rw [Bindings.Knows, hcount]
      exact hk
    by_cases hmem : r ∈ l
    · cases ho : s.sourceObject r with
      | error e => rw [follow_error hmem ho, follow_error hmem ((hsame r hr).trans ho)]
      | ok o =>
          have ho' : t.sourceObject r = .ok o := (hsame r hr).trans ho
          cases o with
          | indirect q =>
              -- The references that have not been followed yet are one fewer.
              have hlt : (l.erase r).length < l.length := by
                rw [← List.length_erase_add_one hmem]
                exact Nat.lt_succ_self _
              rw [follow_next hmem ho, follow_next hmem ho']
              exact follow_congr hcount hsame hnext (hnext r q hr ho) (l.erase r)
          | _ => rw [follow_end hmem ho (by simp), follow_end hmem ho' (by simp)]
    · rw [follow_visited hk hmem, follow_visited hk' hmem]
  · have hk' : ¬ t.bindings.Knows r := by
      rw [Bindings.Knows, hcount]
      exact hk
    rw [follow_unknown hk, follow_unknown hk']
termination_by l.length

/-! ## Closing a store -/

variable {A A' : Reference → Option Object} {log : Log}

/-- What stands in one of the stores of a reference is what it takes along. -/
theorem Maps.origin_eq_place (h : Maps A s) (hp : s.place j q ≠ .absent) : s.origin q = (s.place j q).object? :=
  (h.agrees.origin_eq h.wellFormed trivial).trans (h.agrees.place trivial hp).symm

/-- A reference that is bound elsewhere takes the same object along when a store is closed. -/
theorem Maps.origin_drops (h : Maps A s) (ht : Maps A' t) (hd : Drops (fun j _ => j = i) s t) (hj : j ≠ i)
    (hp : s.place j q ≠ .absent) : t.origin q = s.origin q := by
  have hplace : t.place j q = s.place j q := hd.place hj
  have hp' : t.place j q ≠ .absent := by rwa [hplace]
  rw [ht.origin_eq_place hp', h.origin_eq_place hp, hplace]

/-- The next member of a chain is bound where this one is. -/
theorem Maps.bound_next (h : Maps A s) (hf : s.Faithful j) (hv : (s.bindings.view j q).isSome)
    (ho : s.sourceObject q = .ok (.indirect r)) : (s.bindings.view j r).isSome := by
  obtain ⟨id, hid⟩ := Option.isSome_iff_exists.1 hv
  have hobj := h.origin_eq_place (h.wellFormed.bound hid)
  rw [origin_of_sourceObject h.wellFormed ho] at hobj
  cases hp : s.place j q with
  | absent => rw [hp] at hobj; cases hobj
  | pending => rw [hp] at hobj; cases hobj
  | written o b =>
      rw [hp] at hobj
      cases hobj
      exact (hf hid hp).1 r List.mem_cons_self

theorem maps_close {filters : Registry} {report : CloseReport} (hrun : Runs perform (ofFilters filters) log s)
    (hlog : ∀ ev ∈ log, Smooth ev) (hclose : close i s = .ok report t) : ∃ A, Maps A t := by
  have hok : perform (.close i) s = .ok (.closed report) t := Operation.bind_of_ok hclose
  have hev : Smooth (.ofCall perform (.close i) s) := by
    refine Smooth.of_ok ?_
    rw [Event.ofCall, Operation.outcome_ok hok]
    rfl
  have h := maps_run (hrun.call (.close i)) fun ev hev' => (List.mem_cons.1 hev').elim (fun heq => heq ▸ hev) (hlog ev)
  rw [Operation.next_ok hok] at h
  exact ⟨_, h⟩

/-- Closing a store takes the bindings into it away, and nothing else: a reference that is bound to another
store leads to the same object as before, or to the same error. -/
theorem dereference_close {filters : Registry} {report : CloseReport}
    (hrun : Runs perform (ofFilters filters) log s) (hlog : ∀ ev ∈ log, Smooth ev)
    (hkept : ∀ ev ∈ log, deletedFrom? ev = none) (hclose : close i s = .ok report t) :
    (∀ j r, t.bindings.view j r = if j = i then none else s.bindings.view j r) ∧
      ∀ j r, (t.bindings.view j r).isSome → t.dereference r = s.dereference r := by
  have hs := maps_run hrun hlog
  obtain ⟨A, ht⟩ := maps_close hrun hlog hclose
  have htraced := traced_run hrun fun ev hev => (hlog ev hev).room
  rcases close_cases hs.wellFormed i with ⟨st, u, -, hcl, hd⟩ | ⟨e, he⟩
  · rw [hclose] at hcl
    obtain ⟨-, rfl⟩ := Operation.ofExcept_ok hcl.symm
    have hview : ∀ j r, u.bindings.view j r = if j = i then none else s.bindings.view j r := by
      intro j r
      split
      · exact hd.view_lost ‹_›
      · exact hd.view ‹_›
    refine ⟨hview, fun j r hr => ?_⟩
    have hj : j ≠ i := fun hj => by
      rw [hview, if_pos hj] at hr
      cases hr
    rw [hview, if_neg hj] at hr
    have hf : s.Faithful j := htraced.faithful fun ev hev => by simp [hkept ev hev]
    have hrefs : u.bindings.references = s.bindings.references := by
      rw [Bindings.references, hd.count, Bindings.references]
    rw [dereference, dereference, hrefs]
    -- All members of the chain are bound to the store that is left.
    refine follow_congr (p := fun q => (s.bindings.view j q).isSome) hd.count (fun q hq => ?_)
      (fun q q' hq ho => hs.bound_next hf hq ho) hr _
    obtain ⟨id, hid⟩ := Option.isSome_iff_exists.1 hq
    exact sourceObject_congr hs.wellFormed ht.wellFormed hd.count
      (hs.origin_drops ht hd hj (hs.wellFormed.bound hid))
  · rw [hclose] at he
    cases he

/-- A chain of two references that has come to a second store with the first of them, when the store that it
was written in is closed. -/
theorem dereference_close_of_chain : ∃ log s t report, Runs perform (ofFilters .standard) log s ∧
    log.map Event.call = [.identityFor ⟨0⟩ ⟨1⟩, .setCatalog ⟨0⟩ ⟨0⟩, .write ⟨0⟩ (.indirect ⟨1⟩),
      .write ⟨1⟩ (.boolean true), .newReferenceIn [⟨0⟩], .newReferenceIn [⟨0⟩],
      .createStore .memory ⟨"1.4", true, 2, 2⟩, .createStore .memory ⟨"1.4", true, 2, 2⟩] ∧
    (∀ ev ∈ log, Smooth ev) ∧ (∀ ev ∈ log, deletedFrom? ev = none) ∧ close ⟨0⟩ s = .ok report t ∧
    s.bindings.source ⟨1⟩ = some ⟨0⟩ ∧ (t.bindings.view ⟨1⟩ ⟨0⟩).isSome ∧
    (t.dereference ⟨0⟩).toOption.bind Object.boolean? = some true := by
  let calls : List Call := [.createStore .memory ⟨"1.4", true, 2, 2⟩, .createStore .memory ⟨"1.4", true, 2, 2⟩,
    .newReferenceIn [⟨0⟩], .newReferenceIn [⟨0⟩], .write ⟨1⟩ (.boolean true), .write ⟨0⟩ (.indirect ⟨1⟩),
    .setCatalog ⟨0⟩ ⟨0⟩, .identityFor ⟨0⟩ ⟨1⟩]
  have hrun := runs_events perform calls (ofFilters .standard)
  have hsmooth : (Operation.events perform calls (ofFilters .standard)).all
      (fun ev => ev.call.inMemory && ev.outcome.isOk) = true := by
    decide +kernel
  have hkept : ∀ ev ∈ Operation.events perform calls (ofFilters .standard), deletedFrom? ev = none := by
    decide +kernel
  have hsource : (Operation.after perform calls (ofFilters .standard)).bindings.source ⟨1⟩ = some ⟨0⟩ := by
    decide +kernel
  have hbound : ((Operation.after perform calls (ofFilters .standard)).bindings.view ⟨1⟩ ⟨0⟩).isSome := by
    decide +kernel
  have hfound : ((Operation.after perform calls (ofFilters .standard)).dereference ⟨0⟩).toOption.bind
      Object.boolean? = some true := by
    decide +kernel
  have hok : ((close ⟨0⟩).outcome (Operation.after perform calls (ofFilters .standard))).toOption.isSome := by
    decide +kernel
  have hcalls := Operation.map_call_events perform calls (ofFilters .standard)
  generalize Operation.after perform calls (ofFilters .standard) = s at *
  generalize Operation.events perform calls (ofFilters .standard) = log at *
  have hlog := fun ev hev => Smooth.of_ok (List.all_eq_true.1 hsmooth ev hev)
  obtain ⟨report, hreport⟩ := Option.isSome_iff_exists.1 hok
  have hclose := Operation.ok_of_outcome hreport
  obtain ⟨hview, hsame⟩ := dereference_close hrun hlog hkept hclose
  have hne : (⟨1⟩ : StoreId) ≠ ⟨0⟩ := by decide
  have hv : (((close ⟨0⟩).next s).bindings.view ⟨1⟩ ⟨0⟩).isSome := by rwa [hview, if_neg hne]
  exact ⟨log, s, _, report, hrun, hcalls, hlog, hkept, hclose, hsource, hv, by rwa [hsame ⟨1⟩ ⟨0⟩ hv]⟩

end PdfStore.Session
