import PdfStore.Proofs.SessionOperations

/-!
# Deleting and closing

References lose identities by a deletion and by the close of a store. A reference that loses its source
goes over to another store that holds its object, and has no source only if there is none.
-/

namespace PdfStore.Session

variable {s t u : Session} {i j : StoreId} {r q : Reference} {id : ObjectId} {o : Object} {st st' : Store}

/-- A reference that has no source is held nowhere. -/
def Sourced (s : Session) (q : Reference) : Prop := s.bindings.source q = none → ∀ j o b, s.place j q ≠ .written o b

/-! ## Moving sources -/

/-- A session in which sources have moved. -/
structure Moves (s t : Session) : Prop where
  wellFormed : t.WellFormed
  stores : t.stores = s.stores
  view : ∀ j q, t.bindings.view j q = s.bindings.view j q
  count : t.bindings.entries.length = s.bindings.entries.length
  source : ∀ q, t.bindings.source q = s.bindings.source q ∨ t.Sourced q

namespace Moves

theorem refl (h : s.WellFormed) : Moves s s := ⟨h, rfl, fun _ _ => rfl, rfl, fun _ => Or.inl rfl⟩

theorem store?_eq (h : Moves s t) (j : StoreId) : t.store? j = s.store? j := by
  rw [store?, h.stores]
  rfl

theorem place_eq (h : Moves s t) (j : StoreId) (q : Reference) : t.place j q = s.place j q := by
  rw [place, place, h.store?_eq, h.view]

theorem sourced (h : Moves s t) (hs : s.Sourced q) : t.Sourced q := by
  rcases h.source q with hq | hq
  · intro hn j o b
    rw [h.place_eq]
    exact hs (hq ▸ hn) j o b
  · exact hq

theorem trans (h : Moves s t) (h' : Moves t u) : Moves s u where
  wellFormed := h'.wellFormed
  stores := h'.stores.trans h.stores
  view := fun j q => (h'.view j q).trans (h.view j q)
  count := h'.count.trans h.count
  source := fun q => by
    rcases h'.source q with hq' | hq'
    · rcases h.source q with hq | hq
      · exact Or.inl (hq'.trans hq)
      · exact Or.inr (h'.sourced hq)
    · exact Or.inr hq'

end Moves

/-- The store that a source moves to. -/
def holder (s : Session) (b : Binding) : Option StoreId :=
  (b.identities.entries.find? fun (i, id) => (s.store? i).any (·.isWritten id)).map Prod.fst

theorem written_of_isWritten (h : s.WellFormed) (hv : s.bindings.view i r = some id) :
    (s.store? i).any (·.isWritten id) = true ↔ ∃ o b, s.place i r = .written o b := by
  obtain ⟨st, hst⟩ := store_of_place (h.bound hv)
  rw [place_of_view hst hv, hst, Option.any_some]
  exact Store.isWritten_iff (h.stores hst) id

theorem mem_identities {b : Binding} (h : s.WellFormed) (hb : s.bindings.entries[r.index]? = some b) :
    (i, id) ∈ b.identities.entries ↔ s.bindings.view i r = some id := by
  rw [OrderedMap.mem_entries_iff (h.ascending b (List.mem_of_getElem? hb)), Bindings.view_of_entry hb]
  rfl

theorem holder_some {b : Binding} (h : s.WellFormed) (hb : s.bindings.entries[r.index]? = some b)
    (hh : s.holder b = some i) : ∃ o b, s.place i r = .written o b := by
  obtain ⟨⟨j, id⟩, hfind, rfl⟩ := Option.map_eq_some_iff.1 hh
  have hv := (mem_identities h hb).1 (List.mem_of_find?_eq_some hfind)
  have hw := List.find?_some hfind
  exact (written_of_isWritten h hv).1 hw

theorem holder_none {b : Binding} (h : s.WellFormed) (hb : s.bindings.entries[r.index]? = some b)
    (hh : s.holder b = none) (j : StoreId) (o : Object) (c : Bytes) : s.place j r ≠ .written o c := by
  intro hp
  have hne : s.place j r ≠ .absent := by simp [hp]
  obtain ⟨id, hv⟩ := view_of_place hne
  have := List.find?_eq_none.1 (Option.map_eq_none_iff.1 hh) _ ((mem_identities h hb).2 hv)
  exact this ((written_of_isWritten h hv).2 ⟨o, c, hp⟩)

theorem moves_of_source {place : Option StoreId} (h : s.WellFormed) (hk : s.bindings.Knows r)
    (ht : t = { s with bindings := s.bindings.modify r fun b => { b with source := place } })
    (hp : ∀ i, place = some i → ∃ o b, s.place i r = .written o b)
    (hn : place = none → ∀ j o b, s.place j r ≠ .written o b) : Moves s t ∧ t.Sourced r := by
  have hbind : t.bindings = s.bindings.modify r fun b => { b with source := place } := by rw [ht]
  have hstores : t.stores = s.stores := by rw [ht]
  have hview : ∀ j q, t.bindings.view j q = s.bindings.view j q := fun j q => by
    rw [hbind, Bindings.view_setSource]
  have hsource : ∀ q, t.bindings.source q = if q = r then place else s.bindings.source q := fun q => by
    rw [hbind, Bindings.source_setSource hk]
  have hcount : t.bindings.entries.length = s.bindings.entries.length := by
    rw [hbind, Bindings.length_modify]
  have hopen : ∀ j, t.store? j = s.store? j := fun j => by rw [store?, hstores]; rfl
  have hplace : ∀ j q, t.place j q = s.place j q := fun j q => by
    rw [Session.place, Session.place, hopen, hview]
  have hsourced : t.Sourced r := by
    intro hr j o b
    rw [hsource, if_pos rfl] at hr
    rw [hplace]
    exact hn hr j o b
  refine ⟨⟨?_, hstores, hview, hcount, fun q => ?_⟩, hsourced⟩
  · refine h.of_kept (fun hj => h.stores ((hopen _).symm.trans hj))
      (hbind ▸ Bindings.ascending_setSource h.ascending place) (Nat.le_of_eq hcount.symm)
      (fun hv => ⟨(hview _ _).symm.trans hv, hplace _ _⟩) fun {q j} hq => ?_
    rw [hsource] at hq
    rw [hplace]
    split at hq
    · rename_i heq
      rw [heq]
      exact hp j hq
    · exact h.source hq
  · by_cases hq : q = r
    · exact Or.inr (hq ▸ hsourced)
    · exact Or.inl ((hsource q).trans (if_neg hq))

theorem adoptSource_spec (h : s.WellFormed) (hk : s.bindings.Knows r) :
    ∃ found t, adoptSource r s = .ok found t ∧ Moves s t ∧ t.Sourced r := by
  obtain ⟨b, hb, hget⟩ := Bindings.get_known hk
  obtain ⟨hmoves, hsourced⟩ := moves_of_source h hk rfl (fun i hi => holder_some h hb hi) (holder_none h hb)
  refine ⟨(b.identities.entries.find? fun (i, id) => (s.store? i).any (·.isWritten id)).isSome, _, ?_,
    hmoves, hsourced⟩
  rw [adoptSource, Operation.bind_of_ok (look_of_ok hget), Operation.bind_of_ok (Operation.get_apply s)]
  exact Operation.bind_of_ok (onBindings_ok (Bindings.setSource_known hk (s.holder b)))

/-! ## Taking identities away -/

/-- A session in which references have lost their identities in some places. -/
structure Loses (lost : StoreId → Reference → Prop) (s t : Session) : Prop where
  wellFormed : t.WellFormed
  size : t.stores.length = s.stores.length
  count : t.bindings.entries.length = s.bindings.entries.length
  view : ∀ {j q}, ¬ lost j q → t.bindings.view j q = s.bindings.view j q
  view_lost : ∀ {j q}, lost j q → t.bindings.view j q = none
  place : ∀ {j q}, ¬ lost j q → t.place j q = s.place j q
  store : ∀ {j st'}, t.store? j = some st' →
    ∃ st, s.store? j = some st ∧ st'.output.device = st.output.device

/-- The same, and references that have lost their source have another one if there is one. -/
structure Drops (lost : StoreId → Reference → Prop) (s t : Session) : Prop extends Loses lost s t where
  source : ∀ q, t.bindings.source q = s.bindings.source q ∨ t.Sourced q

variable {lost : StoreId → Reference → Prop}

theorem Loses.place_lost (h : Loses lost s t) (hl : lost j q) : t.place j q = .absent :=
  place_unbound (h.view_lost hl)

theorem Loses.moves (h : Loses lost s t) (h' : Moves t u)
    (hs : ∀ q, t.bindings.source q = s.bindings.source q ∨ u.Sourced q) : Drops lost s u where
  wellFormed := h'.wellFormed
  size := (congrArg List.length h'.stores).trans h.size
  count := h'.count.trans h.count
  view := fun hl => (h'.view _ _).trans (h.view hl)
  view_lost := fun hl => (h'.view _ _).trans (h.view_lost hl)
  place := fun hl => (h'.place_eq _ _).trans (h.place hl)
  store := fun hj => h.store ((h'.store?_eq _).symm.trans hj)
  source := fun q => by
    rcases h'.source q with hq | hq
    · exact (hs q).imp_left hq.trans
    · exact Or.inr hq

theorem loses_of (h : s.WellFormed) (hsize : t.stores.length = s.stores.length)
    (hview : ∀ {j q}, ¬ lost j q → t.bindings.view j q = s.bindings.view j q)
    (hlost : ∀ {j q}, lost j q → t.bindings.view j q = none)
    (hstore : ∀ {j st'}, t.store? j = some st' → st'.WellFormed ∧
      ∃ st, s.store? j = some st ∧ st'.output.device = st.output.device)
    (hplace : ∀ {j q id}, ¬ lost j q → s.bindings.view j q = some id → t.place j q = s.place j q)
    (hsource : ∀ {q j}, t.bindings.source q = some j → s.bindings.source q = some j ∧ ¬ lost j q)
    (hasc : t.bindings.Ascending) (hcount : t.bindings.entries.length = s.bindings.entries.length) :
    Loses lost s t := by
  have hplace' : ∀ {j q}, ¬ lost j q → t.place j q = s.place j q := by
    intro j q hl
    cases hv : s.bindings.view j q with
    | none => rw [place_unbound hv, place_unbound ((hview hl).trans hv)]
    | some id => exact hplace hl hv
  have hkept : ∀ {j q id}, t.bindings.view j q = some id → ¬ lost j q ∧ s.bindings.view j q = some id := by
    intro j q id hv
    have hl : ¬ lost j q := fun hl => by
      rw [hlost hl] at hv
      cases hv
    exact ⟨hl, (hview hl).symm.trans hv⟩
  refine ⟨?_, hsize, hcount, hview, hlost, hplace', fun hj => (hstore hj).2⟩
  refine h.of_kept (fun hj => (hstore hj).1) hasc (Nat.le_of_eq hcount.symm)
    (fun hv => ⟨(hkept hv).2, hplace' (hkept hv).1⟩) fun hq => ?_
  obtain ⟨hq', hl⟩ := hsource hq
  rw [hplace' hl]
  exact h.source hq'

/-! ## Deleting -/

/-- The session after an identity has been freed and its binding taken away, before the source moves. -/
theorem loses_unbind (h : s.WellFormed) (hst : s.store? i = some st)
    (hv : s.bindings.view i r = some id) (hb : st.Becomes id .absent st')
    (ht : t = { s with
      stores := s.stores.set i.index (some st'), bindings := s.bindings.modify r (·.unbind i) }) :
    Loses (fun j q => j = i ∧ q = r) s t := by
  have hbind : t.bindings = s.bindings.modify r (·.unbind i) := by rw [ht]
  have hstores : ∀ j, t.store? j = if j = i then some st' else s.store? j := store?_set hst _ (by rw [ht])
  have hview : ∀ j q, t.bindings.view j q = if j = i ∧ q = r then none else s.bindings.view j q :=
    fun j q => by rw [hbind, Bindings.view_unbind h.ascending]
  refine loses_of h (by rw [ht, List.length_set]) (fun hl => (hview _ _).trans (if_neg hl)) (fun hl => (hview _ _).trans (if_pos hl))
    ?_ ?_ ?_ (hbind ▸ Bindings.ascending_unbind h.ascending) (by rw [hbind, Bindings.length_modify])
  · intro j st₁ hj
    rw [hstores] at hj
    split at hj
    · rename_i heq
      cases hj
      exact ⟨hb.wellFormed, st, heq ▸ hst, hb.device⟩
    · exact ⟨h.stores hj, st₁, hj, rfl⟩
  · intro j q id' hl hq
    have hq' : t.bindings.view j q = some id' := (hview j q).trans ((if_neg hl).trans hq)
    by_cases hj : j = i
    · subst hj
      have hne : id' ≠ id := fun heq => hl ⟨rfl, h.distinct (heq ▸ hq) hv⟩
      rw [place_of_view ((hstores j).trans (if_pos rfl)) hq', place_of_view hst hq]
      exact hb.of_ne hne
    · rw [place, place, hstores, if_neg hj, hq', hq]
  · intro q j hq
    rw [hbind, Bindings.source_unbind] at hq
    split at hq
    · cases hq
    · rename_i hne
      exact ⟨hq, fun hl => hne ⟨hl.2, hl.1 ▸ hq⟩⟩

/-- The last part of a deletion: a reference without a source looks for one. -/
theorem resource_spec {out : Release} (h : s.WellFormed) (hk : s.bindings.Knows r) :
    ∃ t, (do
        let b ← look (·.binding r)
        if b.source.isNone then
          let _ ← adoptSource r
        return out : Operation SessionError Session Release) s = .ok out t ∧ Moves s t ∧ t.Sourced r := by
  obtain ⟨b, hb, hget⟩ := Bindings.get_known hk
  have hsource := Bindings.source_of_entry hb
  rw [Operation.bind_of_ok (look_of_ok hget)]
  cases hs : b.source with
  | some j =>
      refine ⟨s, by simp, .refl h, fun hn => ?_⟩
      rw [hsource, hs] at hn
      cases hn
  | none =>
      obtain ⟨found, t, hok, hm, hr⟩ := adoptSource_spec h hk
      exact ⟨t, Operation.bind_of_ok hok, hm, hr⟩

/-- What is bound can be deleted, which changes no other store. -/
theorem delete_bound (h : s.WellFormed) (hview : s.bindings.view i r = some id) :
    ∃ out t st st', delete r i s = .ok out t ∧ Drops (fun j q => j = i ∧ q = r) s t ∧
      s.store? i = some st ∧ Store.delete id st = .ok out st' ∧ t.stores = s.stores.set i.index (some st') := by
  have hk := Bindings.known_of_view hview
  obtain ⟨b, hb, hget⟩ := Bindings.get_known hk
  have hv : b.identity? i = some id := (Bindings.view_of_entry hb i).symm.trans hview
  obtain ⟨st, hst⟩ := store_of_place (h.bound hview)
  have hlive : st.standing id ≠ .absent := place_of_view hst hview ▸ h.bound hview
  obtain ⟨out, st', hok, hbec⟩ := Store.delete_live (h.stores hst) hlive
  have hloses := loses_unbind h hst hview hbec rfl
  have hk' : (s.bindings.modify r (·.unbind i)).Knows r := by
    rw [Bindings.Knows, Bindings.length_modify]
    exact hk
  have hunbind : onBindings (Bindings.unbind r i) (s.setStore i (some st')) =
      .ok (s.bindings.view i r) { s with
        stores := s.stores.set i.index (some st'), bindings := s.bindings.modify r (·.unbind i) } :=
    onBindings_ok (Bindings.unbind_known hk i)
  obtain ⟨t, hlast, hm, hr⟩ := resource_spec hloses.wellFormed hk'
  refine ⟨out, t, st, st', ?_, hloses.moves hm fun q => ?_, hst, hok, hm.stores⟩
  · rw [delete, Operation.bind_of_ok (look_of_ok hget)]
    simp only [hv]
    rw [Operation.bind_of_ok (onStore_ok hst hok)]
    exact (Operation.bind_of_ok hunbind).trans hlast
  · by_cases hq : q = r
    · exact Or.inr (hq ▸ hr)
    · refine Or.inl ((Bindings.source_unbind s.bindings r q i).trans (if_neg fun h => hq h.1))

theorem delete_unbound (hk : s.bindings.Knows r) (hview : s.bindings.view i r = none) :
    delete r i s = .error (.notBound r i) s := by
  obtain ⟨b, hb, hget⟩ := Bindings.get_known hk
  have hv : b.identity? i = none := (Bindings.view_of_entry hb i).symm.trans hview
  rw [delete, Operation.bind_of_ok (look_of_ok hget)]
  simp only [hv]
  rfl

theorem delete_unknown (hk : ¬ s.bindings.Knows r) (i : StoreId) :
    delete r i s = .error (.unknownReference r) s :=
  Operation.bind_of_error (look_of_error (Bindings.get_unknown hk))

theorem delete_cases (h : s.WellFormed) (r : Reference) (i : StoreId) :
    (∃ out t, delete r i s = .ok out t ∧ Drops (fun j q => j = i ∧ q = r) s t) ∨
      ∃ e, delete r i s = .error e s := by
  by_cases hk : s.bindings.Knows r
  · cases hview : s.bindings.view i r with
    | none => exact Or.inr ⟨_, delete_unbound hk hview⟩
    | some id =>
        obtain ⟨out, t, -, -, hok, hd, -⟩ := delete_bound h hview
        exact Or.inl ⟨out, t, hok, hd⟩
  · exact Or.inr ⟨_, delete_unknown hk i⟩

/-! ## Closing -/

/-- The session after a store has been taken out and its bindings dropped, before sources move. -/
theorem loses_store (h : s.WellFormed) (hst : s.store? i = some st)
    (ht : t = { s with
      stores := s.stores.set i.index none, bindings := (Bindings.dropStore i s.bindings).2 }) :
    Loses (fun j _ => j = i) s t := by
  have hbind : t.bindings = (Bindings.dropStore i s.bindings).2 := by rw [ht]
  have hstores : ∀ j, t.store? j = if j = i then none else s.store? j := store?_set hst _ (by rw [ht])
  have hview : ∀ j q, t.bindings.view j q = if j = i then none else s.bindings.view j q :=
    fun j q => by rw [hbind, Bindings.view_dropStore h.ascending]
  refine loses_of h (by rw [ht, List.length_set]) (fun hl => (hview _ _).trans (if_neg hl)) (fun hl => (hview _ _).trans (if_pos hl))
    ?_ ?_ ?_ (hbind ▸ Bindings.ascending_dropStore h.ascending) (by rw [hbind, Bindings.length_dropStore])
  · intro j st₁ hj
    rw [hstores] at hj
    split at hj
    · cases hj
    · exact ⟨h.stores hj, st₁, hj, rfl⟩
  · intro j q id' hl hq
    rw [place, place, hstores, if_neg hl, hview, if_neg hl]
  · intro q j hq
    rw [hbind, Bindings.source_dropStore] at hq
    split at hq
    · cases hq
    · rename_i hne
      refine ⟨hq, fun hl => hne ⟨hl ▸ hq, ?_⟩⟩
      obtain ⟨o, b, hp⟩ := h.source hq
      have hp' : s.place j q ≠ .absent := by simp [hp]
      obtain ⟨id, hv⟩ := view_of_place hp'
      rw [← hl, hv]
      rfl

/-- Each of the references that have lost their source looks for another one. -/
theorem adopt_all {affected : List (Reference × Bool)} (h : s.WellFormed)
    (hk : ∀ e ∈ affected, s.bindings.Knows e.1) :
    ∃ t, (affected.forM fun (r, wasSource) => do
        if wasSource then
          let _ ← adoptSource r : Operation SessionError Session Unit) s = .ok () t ∧ Moves s t ∧
      ∀ r, (r, true) ∈ affected → t.Sourced r := by
  induction affected generalizing s with
  | nil => exact ⟨s, rfl, .refl h, by simp⟩
  | cons e rest ih =>
      obtain ⟨r, wasSource⟩ := e
      have hstep : ∃ t, (do
          if wasSource then
            let _ ← adoptSource r : Operation SessionError Session Unit) s = .ok () t ∧ Moves s t ∧
          (wasSource = true → t.Sourced r) := by
        cases wasSource with
        | false => exact ⟨s, rfl, .refl h, by simp⟩
        | true =>
            obtain ⟨found, t, hok, hm, hr⟩ := adoptSource_spec h (hk (r, true) List.mem_cons_self)
            exact ⟨t, Operation.bind_of_ok hok, hm, fun _ => hr⟩
      obtain ⟨t, hok, hm, hr⟩ := hstep
      have hk' : ∀ e ∈ rest, t.bindings.Knows e.1 := fun e he => by
        rw [Bindings.Knows, hm.count]
        exact hk e (List.mem_cons_of_mem _ he)
      obtain ⟨u, hok', hm', hr'⟩ := ih hm.wellFormed hk'
      refine ⟨u, (Operation.bind_of_ok hok).trans hok', hm.trans hm', fun q hq => ?_⟩
      rcases List.mem_cons.1 hq with heq | hq
      · cases heq
        exact hm'.sourced (hr rfl)
      · exact hr' q hq

/-- A store that can be closed is taken out, whatever the device does. -/
theorem close_closable (h : s.WellFormed) (hst : s.store? i = some st) (hc : st.checkClosable = .ok ()) :
    ∃ t, close i s = Operation.ofExcept .store st.close t ∧ Drops (fun j _ => j = i) s t ∧
      t.stores = s.stores.set i.index none := by
  have hlook : look (·.store i) s = .ok st s := look_of_ok (by simp only [store, hst])
  have hloses := loses_store h hst rfl
  have hk : ∀ e ∈ (Bindings.dropStore i s.bindings).1, (Bindings.dropStore i s.bindings).2.Knows e.1 := by
    rintro ⟨q, w⟩ he
    rw [Bindings.Knows, Bindings.length_dropStore]
    exact (Bindings.mem_affected he).1
  obtain ⟨t, hok, hm, hr⟩ := adopt_all hloses.wellFormed hk
  refine ⟨t, ?_, hloses.moves hm fun q => ?_, hm.stores⟩
  · rw [close, Operation.bind_of_ok hlook, hc]
    exact Operation.bind_of_ok hok
  · by_cases hq : s.bindings.source q = some i
    · obtain ⟨o, b, hp⟩ := h.source hq
      have hne : s.place i q ≠ .absent := by simp [hp]
      obtain ⟨id, hv⟩ := view_of_place hne
      exact Or.inr (hr q (Bindings.affected_of_source hq (by rw [hv]; rfl)))
    · exact Or.inl ((Bindings.source_dropStore i s.bindings q).trans (if_neg fun h => hq h.1))

theorem close_closed (hst : s.store? i = none) : close i s = .error (.storeClosed i) s :=
  Operation.bind_of_error (look_of_error (by simp only [store, hst]))

theorem close_unready {e : StoreError} (hst : s.store? i = some st) (hc : st.checkClosable = .error e) :
    close i s = .error (.store e) s := by
  have hlook : look (·.store i) s = .ok st s := look_of_ok (by simp only [store, hst])
  rw [close, Operation.bind_of_ok hlook, hc]
  rfl

/-- A close that is refused changes nothing; any other one takes the store out, whatever the device does. -/
theorem close_cases (h : s.WellFormed) (i : StoreId) :
    (∃ st t, s.store? i = some st ∧ close i s = Operation.ofExcept .store st.close t ∧
      Drops (fun j _ => j = i) s t) ∨
      ∃ e, close i s = .error e s := by
  cases hst : s.store? i with
  | none => exact Or.inr ⟨_, close_closed hst⟩
  | some st =>
      cases hc : st.checkClosable with
      | error e => exact Or.inr ⟨_, close_unready hst hc⟩
      | ok _ =>
          obtain ⟨t, hok, hd, -⟩ := close_closable h hst hc
          exact Or.inl ⟨st, t, rfl, hok, hd⟩

end PdfStore.Session
