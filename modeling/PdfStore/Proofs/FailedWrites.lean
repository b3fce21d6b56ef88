import PdfStore.Proofs.ClosedFile
import PdfStore.Proofs.Sources

/-!
# What a failed write leaves

A write that fails has bound references of its object to the first store that it was to be written to. Their
identities stay reserved there, so that a store which could be closed before may not be closed any more. The
objects, the sources and the other stores are as they were.
-/

namespace PdfStore

instance (t : Bindings) (r : Reference) : Decidable (t.Knows r) := inferInstanceAs (Decidable (_ < _))

/-- What a store has beside its table. -/
def Store.besideTable (st : Store) :
    Config × OutputCursor × OrderedMap UInt32 Payload × Option ObjectId × Option ObjectId :=
  (st.config, st.output, st.payloads, st.catalog, st.info)

namespace Session

variable {s t u : Session} {i j : StoreId} {r q : Reference} {id : ObjectId} {o : Object} {st st' : Store}
variable {p p' : Reference → Prop} {e : SessionError} {d : Delivery} {refs : List Reference}

/-! ## Reserved identities -/

/-- A session in which references that satisfy `p` have been bound to a store, under identities that have been
reserved for them. Nothing else has changed. -/
structure Reserves (i : StoreId) (p : Reference → Prop) (s t : Session) : Prop where
  filters : t.filters = s.filters
  source : ∀ q, t.bindings.source q = s.bindings.source q
  kept : ∀ {j q id}, s.bindings.view j q = some id → t.bindings.view j q = some id
  bound : ∀ {j q id}, t.bindings.view j q = some id →
    s.bindings.view j q = some id ∨ j = i ∧ p q ∧ t.place i q = .pending
  others : ∀ {j}, j ≠ i → t.store? j = s.store? j
  store : (t.store? i).map Store.besideTable = (s.store? i).map Store.besideTable
  reserved : ∀ {st st' id}, s.store? i = some st → t.store? i = some st' → st'.standing id ≠ st.standing id →
    st.standing id = .absent ∧ st'.standing id = .pending ∧
      ∃ q, s.bindings.view i q = none ∧ t.bindings.view i q = some id

namespace Reserves

theorem refl : Reserves i p s s := by
  refine ⟨rfl, fun _ => rfl, fun h => h, fun h => Or.inl h, fun _ => rfl, rfl, fun hst hst' hne => ?_⟩
  rw [hst] at hst'
  cases hst'
  exact absurd rfl hne

theorem isOpen (h : Reserves i p s t) (hst : s.store? j = some st) :
    ∃ st', t.store? j = some st' ∧ st'.besideTable = st.besideTable := by
  by_cases hj : j = i
  · subst hj
    have hstore := h.store
    rw [hst, Option.map_some] at hstore
    exact Option.map_eq_some_iff.1 hstore
  · exact ⟨st, (h.others hj).trans hst, rfl⟩

/-- What a reference has in a store stays there. -/
theorem place_eq (h : Reserves i p s t) (hp : s.place j q ≠ .absent) : t.place j q = s.place j q := by
  obtain ⟨id, hv⟩ := view_of_place hp
  obtain ⟨st, hst⟩ := store_of_place hp
  obtain ⟨st', hst', -⟩ := h.isOpen hst
  rw [place_of_view hst hv] at hp ⊢
  rw [place_of_view hst' (h.kept hv)]
  by_cases hj : j = i
  · subst hj
    by_contra hne
    exact hp (h.reserved hst hst' hne).1
  · rw [h.others hj, hst] at hst'
    cases hst'
    rfl

theorem mono (h : Reserves i p s t) (hp : ∀ q, p q → p' q) : Reserves i p' s t where
  filters := h.filters
  source := h.source
  kept := h.kept
  bound := fun hv => (h.bound hv).imp_right fun ⟨hj, hq, hpend⟩ => ⟨hj, hp _ hq, hpend⟩
  others := h.others
  store := h.store
  reserved := h.reserved

theorem trans (h : Reserves i p s t) (h' : Reserves i p t u) : Reserves i p s u where
  filters := h'.filters.trans h.filters
  source := fun q => (h'.source q).trans (h.source q)
  kept := fun hv => h'.kept (h.kept hv)
  bound := fun {j q id} hv => by
    rcases h'.bound hv with hv | hnew
    · refine (h.bound hv).imp_right fun ⟨hj, hq, hpend⟩ => ⟨hj, hq, ?_⟩
      rw [h'.place_eq (by simp [hpend]), hpend]
    · exact Or.inr hnew
  others := fun hj => (h'.others hj).trans (h.others hj)
  store := h'.store.trans h.store
  reserved := fun {st st' id} hst hst' hne => by
    obtain ⟨st₁, hst₁, -⟩ := h.isOpen hst
    by_cases heq : st₁.standing id = st.standing id
    · obtain ⟨habs, hpend, q, hn, hv⟩ := h'.reserved hst₁ hst' (heq ▸ hne)
      refine ⟨heq ▸ habs, hpend, q, ?_, hv⟩
      cases hs : s.bindings.view i q with
      | none => rfl
      | some id' =>
          rw [h.kept hs] at hn
          cases hn
    · obtain ⟨habs, hpend, q, hn, hv⟩ := h.reserved hst hst₁ heq
      have hsame : st'.standing id = st₁.standing id := by
        by_contra hne'
        rw [(h'.reserved hst₁ hst' hne').1] at hpend
        cases hpend
      exact ⟨habs, hsame.trans hpend, q, hn, h'.kept hv⟩

theorem inMemory (h : Reserves i p s t) (hm : s.InMemory) : t.InMemory := by
  intro j st' hst'
  by_cases hj : j = i
  · have hstore := h.store
    rw [← hj, hst', Option.map_some] at hstore
    obtain ⟨st, hst, heq⟩ := Option.map_eq_some_iff.1 hstore.symm
    have hout : st.output = st'.output := congrArg (·.2.1) heq
    rw [← hout]
    exact hm j st hst
  · exact hm j st' ((h.others hj).symm.trans hst')

/-- A reference that has just been bound keeps the store from being closed. -/
theorem not_closable (h : Reserves i p s t) (ht : t.WellFormed) (hn : s.bindings.view i q = none)
    (hv : t.bindings.view i q = some id) : ∃ st, t.store? i = some st ∧ st.checkClosable ≠ .ok () := by
  rcases h.bound hv with hv' | ⟨-, -, hpend⟩
  · rw [hn] at hv'
    cases hv'
  · obtain ⟨st, hst⟩ := store_of_place (ht.bound hv)
    rw [place_of_view hst hv] at hpend
    obtain ⟨slot, hslot⟩ := Store.validate_of_standing (by simp [hpend] : st.standing id ≠ .absent)
    refine ⟨st, hst, fun hc => ?_⟩
    obtain ⟨_, -, hnone⟩ := Store.checkClosable_ok hc
    obtain ⟨_, -, hw⟩ := Store.standing_of_closable (ht.stores hst) hnone hslot
    rw [hpend] at hw
    cases hw

end Reserves

/-! ## Binding references -/

/-- The references up to the first one that is unknown. -/
def reached (s : Session) (refs : List Reference) : List Reference :=
  refs.takeWhile fun q => decide (s.bindings.Knows q)

theorem entry_of_binding {b : Binding} (h : s.binding r = .ok b) : s.bindings.entries[r.index]? = some b := by
  unfold binding Bindings.get at h
  split at h
  · cases h
    assumption
  · cases h

theorem store_of_onStore {α : Type} {x : Operation StoreError Store α} {a : α} (h : onStore i x s = .ok a t) :
    ∃ st st', s.store? i = some st ∧ x st = .ok a st' ∧ t = s.setStore i (some st') := by
  unfold onStore at h
  split at h
  · cases h
  · rename_i st hst
    split at h
    · rename_i st' hx
      cases h
      exact ⟨st, st', hst, hx, rfl⟩
    · cases h

theorem bindInto_state {more : List Delivery} (hn : s.bindings.view i r = none)
    (h : bindInto i r s = .ok (id, more) t) : ∃ st st', s.store? i = some st ∧ Store.reserve st = .ok id st' ∧
      t = { s with
        stores := s.stores.set i.index (some st'), bindings := s.bindings.modify r (·.bind i id) } := by
  obtain ⟨b, _, hlook, h₁⟩ := Operation.bind_ok h
  obtain ⟨hb, rfl⟩ := look_ok hlook
  have hentry := entry_of_binding hb
  have hk : s.bindings.Knows r := (List.getElem?_eq_some_iff.1 hentry).1
  rw [Bindings.view_of_entry hentry] at hn
  simp only [hn] at h₁
  obtain ⟨id', s₁, hreserve, h₂⟩ := Operation.bind_ok h₁
  obtain ⟨st, st', hst, hres, rfl⟩ := store_of_onStore hreserve
  have hbind : onBindings (Bindings.bind r i id') (s.setStore i (some st')) = .ok () { s with
      stores := s.stores.set i.index (some st'), bindings := s.bindings.modify r (·.bind i id') } :=
    onBindings_ok (Bindings.bind_known hk i id')
  rw [Operation.bind_of_ok hbind] at h₂
  refine ⟨st, st', hst, ?_⟩
  -- Looking for the object changes nothing.
  cases ho : b.origin? with
  | none =>
      simp only [ho] at h₂
      cases h₂
      exact ⟨hres, rfl⟩
  | some origin =>
      simp only [ho] at h₂
      obtain ⟨found, _, hlook', h₃⟩ := Operation.bind_ok h₂
      obtain ⟨-, rfl⟩ := look_ok hlook'
      cases found <;> cases h₃ <;> exact ⟨hres, rfl⟩

theorem reserves_bindInto {more : List Delivery} (h : s.WellFormed) (hn : s.bindings.view i r = none)
    (hok : bindInto i r s = .ok (id, more) t) : Reserves i (· = r) s t := by
  have hs := sets_of_bindInto h hn hok
  obtain ⟨st, st', hst, hres, ht⟩ := bindInto_state hn hok
  have hstores : ∀ j, t.store? j = if j = i then some st' else s.store? j := store?_set hst _ (by rw [ht])
  have hself : t.store? i = some st' := (hstores i).trans (if_pos rfl)
  have htransfer : Transfer (· = i) nothing s t := hs.transfer_bind rfl hn
  have hnew : t.bindings.view i r = some id := (hs.view i r).trans (if_pos ⟨rfl, rfl⟩)
  constructor
  case filters => rw [ht]
  case source => exact hs.source
  case kept => exact htransfer.view
  case bound =>
    intro j q id' hv
    rw [hs.view] at hv
    split at hv
    · rename_i heq
      exact Or.inr ⟨heq.1, heq.2, (hs.place i q).trans (if_pos ⟨rfl, heq.2⟩)⟩
    · exact Or.inl hv
  case others => exact fun hj => (hstores _).trans (if_neg hj)
  case store =>
    obtain ⟨u, -, rfl⟩ := Store.table_of_reserve hres
    rw [hself, hst]
    rfl
  case reserved =>
    intro st₁ st₂ id' hst₁ hst₂ hne
    rw [hst] at hst₁
    rw [hself] at hst₂
    cases hst₁
    cases hst₂
    rcases Store.reserve_cases (h.stores hst) with ⟨id₁, st₁, hok₁, habs, hbec⟩ | hfull
    · rw [hres] at hok₁
      cases hok₁
      have heq : id' = id := by
        by_contra hid
        exact hne (hbec.of_ne hid)
      rw [heq]
      exact ⟨habs, hbec.self, r, hn, hnew⟩
    · rw [hres] at hfull
      cases hfull

/-- What binding references one after the other leaves, if there is room for all of them. -/
structure Leaves (i : StoreId) (refs : List Reference) (s t : Session) : Prop extends
    Reserves i (· ∈ refs) s t where
  wellFormed : t.WellFormed
  all : ∀ q ∈ s.reached refs, (t.bindings.view i q).isSome
  same : (∀ q ∈ s.reached refs, (s.bindings.view i q).isSome) → t = s

theorem Leaves.same_iff (h : Leaves i refs s t) :
    t = s ↔ ∀ q ∈ s.reached refs, (s.bindings.view i q).isSome :=
  ⟨fun heq => heq ▸ h.all, h.same⟩

theorem Leaves.cons_unknown (h : s.WellFormed) (hk : ¬ s.bindings.Knows r) : Leaves i (r :: refs) s s :=
  ⟨.refl, h, by simp [reached, hk], fun _ => rfl⟩

theorem reached_cons (hk : s.bindings.Knows r) : s.reached (r :: refs) = r :: s.reached refs := by
  simp [reached, hk]

theorem Leaves.cons_bound (h : Leaves i refs s t) (hv : s.bindings.view i r = some id) :
    Leaves i (r :: refs) s t where
  toReserves := h.toReserves.mono fun _ => List.mem_cons_of_mem _
  wellFormed := h.wellFormed
  all := by
    rw [reached_cons (Bindings.known_of_view hv)]
    exact List.forall_mem_cons.2 ⟨by rw [h.kept hv]; rfl, h.all⟩
  same := fun hall => by
    rw [reached_cons (Bindings.known_of_view hv)] at hall
    exact h.same fun q hq => hall q (List.mem_cons_of_mem _ hq)

theorem Leaves.cons_new {more : List Delivery} (h : Leaves i refs t u) (hs : s.WellFormed)
    (hn : s.bindings.view i r = none) (hok : bindInto i r s = .ok (id, more) t) : Leaves i (r :: refs) s u := by
  have hsets := sets_of_bindInto hs hn hok
  have hnew : t.bindings.view i r = some id := (hsets.view i r).trans (if_pos ⟨rfl, rfl⟩)
  have hknows : ∀ q, t.bindings.Knows q ↔ s.bindings.Knows q := fun q => by
    rw [Bindings.Knows, Bindings.Knows, hsets.count]
  have hreached : s.reached (r :: refs) = r :: t.reached refs := by
    rw [reached_cons ((hknows r).1 (Bindings.known_of_view hnew))]
    simp only [reached, hknows]
  have hfirst : Reserves i (· ∈ r :: refs) s t :=
    (reserves_bindInto hs hn hok).mono fun q hq => hq ▸ List.mem_cons_self
  refine ⟨hfirst.trans (h.toReserves.mono fun _ => List.mem_cons_of_mem _), h.wellFormed, ?_, fun hall => ?_⟩
  · rw [hreached]
    exact List.forall_mem_cons.2 ⟨by rw [h.kept hnew]; rfl, h.all⟩
  · have hbound := hall r (by rw [hreached]; exact List.mem_cons_self)
    rw [hn] at hbound
    cases hbound

theorem Leaves.not_closable_of_ne (h : Leaves i refs s t) (hne : t ≠ s) :
    ∃ st, t.store? i = some st ∧ st.checkClosable ≠ .ok () := by
  have hnew : ∃ q ∈ s.reached refs, s.bindings.view i q = none := by
    by_contra hnone
    refine hne (h.same fun q hq => ?_)
    exact Option.isSome_iff_ne_none.2 fun hn => hnone ⟨q, hq, hn⟩
  obtain ⟨q, hq, hn⟩ := hnew
  obtain ⟨id, hv⟩ := Option.isSome_iff_exists.1 (h.all q hq)
  exact h.not_closable h.wellFormed hn hv

theorem bindAll_leaves (h : s.WellFormed) (hst : s.store? i = some st) (refs : List Reference)
    (pending : List Delivery) :
    (∃ result t, bindAll i refs pending s = .ok result t ∧ Leaves i refs s t ∧
      ∀ q ∈ refs, (t.bindings.view i q).isSome) ∨
    (∃ e t, bindAll i refs pending s = .error e t ∧ (e = .store (.table .full) ∨ Leaves i refs s t)) := by
  induction refs generalizing s pending st with
  | nil => exact Or.inl ⟨pending, s, rfl, ⟨.refl, h, by simp [reached], fun _ => rfl⟩, by simp⟩
  | cons r rest ih =>
      rcases bindInto_cases h hst r with ⟨hk, he⟩ | ⟨id, hv, hok⟩ | ⟨hn, he⟩ | ⟨hn, id, t, hs, hok⟩
      · exact Or.inr ⟨_, s, Operation.bind_of_error he, Or.inr (.cons_unknown h hk)⟩
      · rcases ih h hst pending with ⟨result, u, hok', hl, hall⟩ | ⟨e, u, he, hl⟩
        · refine Or.inl ⟨result, u, (Operation.bind_of_ok hok).trans hok', hl.cons_bound hv, ?_⟩
          exact List.forall_mem_cons.2 ⟨by rw [hl.kept hv]; rfl, hall⟩
        · exact Or.inr ⟨e, u, (Operation.bind_of_ok hok).trans he, hl.imp_right fun hl => hl.cons_bound hv⟩
      · exact Or.inr ⟨_, s, Operation.bind_of_error he, Or.inl rfl⟩
      · obtain ⟨st', hst', -⟩ := (reserves_bindInto h hn hok).isOpen hst
        rcases ih hs.wellFormed hst' ((s.origin r).toList.map (Delivery.mk id) ++ pending) with
          ⟨result, u, hok', hl, hall⟩ | ⟨e, u, he, hl⟩
        · have hnew : t.bindings.view i r = some id := (hs.view i r).trans (if_pos ⟨rfl, rfl⟩)
          refine Or.inl ⟨result, u, (Operation.bind_of_ok hok).trans hok', hl.cons_new h hn hok, ?_⟩
          exact List.forall_mem_cons.2 ⟨by rw [hl.kept hnew]; rfl, hall⟩
        · exact Or.inr ⟨e, u, (Operation.bind_of_ok hok).trans he, hl.imp_right fun hl => hl.cons_new h hn hok⟩

/-! ## Delivering and writing -/

/-- A delivery fails with its references bound and nothing written. -/
theorem deliver_leaves {pending : List Delivery} (h : s.WellFormed) (hm : s.InMemory)
    (hv : s.bindings.view i r = some d.id) (he : deliver i d pending s = .error e t)
    (hfull : e ≠ .store (.table .full)) : Leaves i d.object.references s t := by
  obtain ⟨st, hst⟩ := store_of_place (h.bound hv)
  rcases bindAll_leaves h hst d.object.references pending with
    ⟨result, u, hok, hl, hall⟩ | ⟨e', u, he', hl⟩
  · obtain ⟨st', hst', -⟩ := hl.isOpen hst
    rcases put_cases hl.wellFormed hst' (hl.kept hv) hall with ⟨c, v, hput, -⟩ | ⟨e', hput, -⟩ | ⟨-, hd⟩
    · rw [deliver, Operation.bind_of_ok hok, Operation.bind_of_ok hput] at he
      cases he
    · rw [deliver, Operation.bind_of_ok hok, Operation.bind_of_error hput] at he
      cases he
      exact hl
    · rw [hl.inMemory hm i st' hst'] at hd
      cases hd
  · rw [deliver, Operation.bind_of_error he'] at he
    cases he
    exact hl.resolve_left hfull

/-- A transfer of one object that fails, fails at that object. -/
theorem drain_leaves (h : s.WellFormed) (hm : s.InMemory) (hv : s.bindings.view i r = some id)
    (he : drain i [⟨id, o⟩] s = .error e t) (hfull : e ≠ .store (.table .full)) :
    Leaves i o.references s t := by
  obtain ⟨st, hst⟩ := store_of_place (h.bound hv)
  have hunsound : ¬ s.Sound o := fun ho => by
    rcases drain_write_cases h hv ho with ⟨u, hok, -⟩ | ⟨e', u, he', -, hf⟩
    · rw [he] at hok
      cases hok
    · rw [he] at he'
      cases he'
      exact hfull (full_of_inMemory hm hf)
  rcases deliver_cases h hst (fetches_rewriting hv) (owed_rewriting (o := o) hv) with
    ⟨-, -, -, -, -, ho⟩ | ⟨e', u, he', -⟩
  · exact absurd ho hunsound
  · have hdrain := drain_error he'
    rw [he] at hdrain
    cases hdrain
    exact deliver_leaves h hm hv he' hfull

/-- The first of the stores that a reference is bound to. -/
def firstStore (s : Session) (r : Reference) : Option StoreId :=
  s.bindings.entries[r.index]?.bind fun b => b.identities.entries.head?.map Prod.fst

/-- A write that fails without a full table fails at the first store. -/
theorem write_leaves (h : s.WellFormed) (hm : s.InMemory) (he : write r o s = .error e t)
    (hfull : e ≠ .store (.table .full)) :
    s.firstStore r = none ∧ t = s ∨ ∃ i, s.firstStore r = some i ∧ Leaves i o.references s t := by
  by_cases hk : s.bindings.Knows r
  · obtain ⟨b, hb, hget⟩ := Bindings.get_known hk
    have hlook : look (·.binding r) s = .ok b s := look_of_ok hget
    have hmem : ∀ {i id}, (i, id) ∈ b.identities.entries ↔ s.bindings.view i r = some id := mem_identities h hb
    have hwrite := he
    rw [write, Operation.bind_of_ok hlook] at he
    cases hl : b.identities.entries with
    | nil =>
        simp only [hl] at he
        cases he
        exact Or.inl ⟨by simp [firstStore, hb, hl], rfl⟩
    | cons head rest =>
        obtain ⟨first, id⟩ := head
        simp only [hl] at he hmem
        have hv : s.bindings.view first r = some id := hmem.1 List.mem_cons_self
        refine Or.inr ⟨first, by simp [firstStore, hb, hl], ?_⟩
        cases hd : drain first [⟨id, o⟩] s with
        | error e' t' =>
            let x : Operation SessionError Session Unit := ((first, id) :: rest).forM fun place =>
              drain place.1 [⟨place.2, o⟩]
            have hfails : x s = .error e' t' := Operation.forM_cons_error hd
            have hsame := he.symm.trans (Operation.bind_of_error hfails)
            cases hsame
            exact drain_leaves h hm hv hd hfull
        | ok a t' =>
            rcases write_sound (fun _ hm _ ht _ => hm.transfer ht) h hm (sound_of_drain h hv hd) hb hl with
              ⟨_, _, hok, -⟩ | ⟨e', u, j, v, he', -, hmu, -, hf⟩
            · rw [hwrite] at hok
              cases hok
            · rw [hwrite] at he'
              cases he'
              exact absurd (full_of_inMemory hmu hf) hfull
  · rw [write, Operation.bind_of_error (look_of_error (Bindings.get_unknown hk))] at he
    cases he
    have hnone : s.bindings.entries[r.index]? = none := List.getElem?_eq_none (Nat.le_of_not_lt hk)
    exact Or.inl ⟨by simp [firstStore, hnone], rfl⟩

theorem view_of_firstStore (h : s.WellFormed) (hf : s.firstStore r = some i) :
    ∃ id, s.bindings.view i r = some id := by
  obtain ⟨b, hb, hhead⟩ := Option.bind_eq_some_iff.1 hf
  obtain ⟨⟨j, id⟩, hentry, rfl⟩ := Option.map_eq_some_iff.1 hhead
  exact ⟨id, (mem_identities h hb).1 (List.mem_of_mem_head? hentry)⟩

theorem reserves_newReference (hok : newReference s = .ok r t) : Reserves i p s t := by
  obtain ⟨-, rfl⟩ := newReference_ok hok
  have hview : ∀ j q, Bindings.view ⟨s.bindings.entries ++ [.empty]⟩ j q = s.bindings.view j q :=
    Bindings.view_create s.bindings
  refine ⟨rfl, Bindings.source_create s.bindings, fun hv => (hview _ _).trans hv,
    fun hv => Or.inl ((hview _ _).symm.trans hv), fun _ => rfl, rfl, fun {st st' id} hst hst' hne => ?_⟩
  have hsame : st = st' := Option.some.inj (hst.symm.trans hst')
  exact absurd (by rw [hsame]) hne

/-- A new reference stays bound if its object cannot be written. -/
theorem writeNew_leaves (h : s.WellFormed) (hm : s.InMemory) (he : writeNew i o s = .error e t)
    (hfull : e ≠ .store (.table .full)) :
    t = s ∧ (s.store? i = none ∨ maxHandles ≤ s.bindings.entries.length) ∨
      Reserves i (fun q => q = ⟨s.bindings.entries.length⟩ ∨ q ∈ o.references) s t ∧ t.WellFormed ∧
        s.bindings.view i ⟨s.bindings.entries.length⟩ = none ∧
        ∃ id, t.bindings.view i ⟨s.bindings.entries.length⟩ = some id := by
  rcases newReferenceIn_one h i with ⟨id, t₁, u, hmade, hbind, hnew⟩ | ⟨hrefused, e', he'⟩ | ⟨t₁, hmade, he'⟩
  · have hext := extends_of_newReference h hmade
    obtain ⟨-, hview, -⟩ := unbound_of_newReference hmade
    have hsets := sets_of_bindInto hext.wellFormed (hview i) hbind
    have hbound : u.bindings.view i ⟨s.bindings.entries.length⟩ = some id :=
      (hsets.view i _).trans (if_pos ⟨rfl, rfl⟩)
    have hreserved : Reserves i (fun q => q = ⟨s.bindings.entries.length⟩ ∨ q ∈ o.references) s u :=
      (reserves_newReference hmade).trans ((reserves_bindInto hext.wellFormed (hview i) hbind).mono fun _ => Or.inl)
    have hfresh : s.bindings.view i ⟨s.bindings.entries.length⟩ = none := (hext.view i _).symm.trans (hview i)
    have hwrite : write ⟨s.bindings.entries.length⟩ o u = .error e t := by
      rw [writeNew, Operation.bind_of_ok hnew] at he
      exact Operation.error_of_bind_pure he
    refine Or.inr ?_
    rcases write_leaves hsets.wellFormed (hreserved.inMemory hm) hwrite hfull with ⟨-, rfl⟩ | ⟨j, hj, hl⟩
    · exact ⟨hreserved, hsets.wellFormed, hfresh, id, hbound⟩
    · -- The new reference is bound to no other store.
      have hji : j = i := by
        obtain ⟨id', hv⟩ := view_of_firstStore hsets.wellFormed hj
        rw [hsets.view] at hv
        split at hv
        · rename_i heq
          exact heq.1
        · rw [hview j] at hv
          cases hv
      subst hji
      exact ⟨hreserved.trans (hl.toReserves.mono fun _ => Or.inr), hl.wellFormed, hfresh, id, hl.kept hbound⟩
  · rw [writeNew, Operation.bind_of_error he'] at he
    cases he
    exact Or.inl ⟨rfl, hrefused⟩
  · rw [writeNew, Operation.bind_of_error he'] at he
    cases he
    exact absurd rfl hfull

/-! ## Runs -/

variable {log : Log} {filters : Registry}

/-- A write that fails leaves the session as it was exactly if the references of its object that it has come
across are bound to the first store already. Otherwise it has reserved identities for them, which is all that
has changed, and the store cannot be closed. A new reference is left bound as well. -/
theorem reserves_of_failed_write (hrun : Runs perform (ofFilters filters) log s)
    (hmem : ∀ ev ∈ log, ev.call.inMemory) :
    (∀ r o e t, write r o s = .error e t → e ≠ .store (.table .full) →
      s.firstStore r = none ∧ t = s ∨ ∃ i, s.firstStore r = some i ∧ Reserves i (· ∈ o.references) s t ∧
        (t = s ↔ ∀ q ∈ s.reached o.references, (s.bindings.view i q).isSome) ∧
        (t ≠ s → ∃ st, t.store? i = some st ∧ st.checkClosable ≠ .ok ())) ∧
    ∀ i o e t, writeNew i o s = .error e t → e ≠ .store (.table .full) →
      t = s ∧ (s.store? i = none ∨ maxHandles ≤ s.bindings.entries.length) ∨
        Reserves i (fun q => q = ⟨s.bindings.entries.length⟩ ∨ q ∈ o.references) s t ∧
          ∃ st, t.store? i = some st ∧ st.checkClosable ≠ .ok () := by
  obtain ⟨h, hm⟩ := wellFormed_run hrun hmem
  refine ⟨fun r o e t he hfull => ?_, fun i o e t he hfull => ?_⟩
  · exact (write_leaves h hm he hfull).imp_right fun ⟨i, hi, hl⟩ =>
      ⟨i, hi, hl.toReserves, hl.same_iff, hl.not_closable_of_ne⟩
  · refine (writeNew_leaves h hm he hfull).imp_right fun ⟨hr, ht, hn, id, hv⟩ => ⟨hr, ?_⟩
    exact hr.not_closable ht hn hv

/-- Another attempt at a write that has failed leaves no more traces. -/
theorem reserves_of_failed_write_again : ∃ log s e, Runs perform (ofFilters .standard) log s ∧
    log.map Event.call = [.write ⟨1⟩ (.array [.indirect ⟨0⟩, .real (Float.ofBits 0x7ff8000000000000)]),
      .newReferenceIn [⟨1⟩], .writeNew ⟨0⟩ (.boolean true), .createStore .memory ⟨"1.4", false, 2, 2⟩,
      .createStore .memory ⟨"1.4", false, 2, 2⟩] ∧
    (∀ ev ∈ log, ev.call.inMemory) ∧ s.firstStore ⟨1⟩ = some ⟨1⟩ ∧ s.bindings.view ⟨1⟩ ⟨0⟩ = some ⟨2, 0⟩ ∧
    e ≠ .store (.table .full) ∧
    write ⟨1⟩ (.array [.indirect ⟨0⟩, .real (Float.ofBits 0x7ff8000000000000)]) s = .error e s := by
  let o : Object := .array [.indirect ⟨0⟩, .real (Float.ofBits 0x7ff8000000000000)]
  let calls : List Call := [.createStore .memory ⟨"1.4", false, 2, 2⟩, .createStore .memory ⟨"1.4", false, 2, 2⟩,
    .writeNew ⟨0⟩ (.boolean true), .newReferenceIn [⟨1⟩], .write ⟨1⟩ o]
  have hrun := runs_events perform calls (ofFilters .standard)
  have hmem : ∀ ev ∈ Operation.events perform calls (ofFilters .standard), ev.call.inMemory := by
    decide +kernel
  have hfirst : (Operation.after perform calls (ofFilters .standard)).firstStore ⟨1⟩ = some ⟨1⟩ := by
    decide +kernel
  have hview : (Operation.after perform calls (ofFilters .standard)).bindings.view ⟨1⟩ ⟨0⟩ = some ⟨2, 0⟩ := by
    decide +kernel
  have hfails : ((write ⟨1⟩ o).outcome (Operation.after perform calls (ofFilters .standard))).isOk = false := by
    decide +kernel
  have hroom : fills (.ofCall perform (.write ⟨1⟩ o) (Operation.after perform calls (ofFilters .standard))) =
      false := by
    decide +kernel
  have hreached : (Operation.after perform calls (ofFilters .standard)).reached o.references = [⟨0⟩] := by
    decide +kernel
  have hcalls := Operation.map_call_events perform calls (ofFilters .standard)
  generalize Operation.after perform calls (ofFilters .standard) = s at *
  generalize Operation.events perform calls (ofFilters .standard) = log at *
  obtain ⟨e, he⟩ := Operation.error_of_outcome hfails
  have hfull : e ≠ .store (.table .full) := not_fills hroom (Operation.bind_of_error he)
  refine ⟨log, s, e, hrun, hcalls, hmem, hfirst, hview, hfull, ?_⟩
  rcases (reserves_of_failed_write hrun hmem).1 _ _ _ _ he hfull with ⟨hnone, -⟩ | ⟨i, hi, -, hsame, -⟩
  · rw [hfirst] at hnone
    cases hnone
  · rw [hfirst] at hi
    cases hi
    have hbound : ∀ q ∈ s.reached o.references, (s.bindings.view ⟨1⟩ q).isSome := by
      intro q hq
      rw [hreached, List.mem_singleton] at hq
      rw [hq, hview]
      rfl
    rw [hsame.2 hbound] at he
    exact he

/-- A store that could be closed before a write failed, and cannot be closed any more. -/
theorem not_closable_after_failed_write : ∃ log s t e, Runs perform (ofFilters .standard) log s ∧
    log.map Event.call = [.setCatalog ⟨1⟩ ⟨1⟩, .writeNew ⟨1⟩ (.boolean false), .writeNew ⟨0⟩ (.boolean true),
      .createStore .memory ⟨"1.4", false, 2, 2⟩, .createStore .memory ⟨"1.4", false, 2, 2⟩] ∧
    (∀ ev ∈ log, ev.call.inMemory) ∧
    write ⟨1⟩ (.array [.indirect ⟨0⟩, .real (Float.ofBits 0x7ff8000000000000)]) s = .error e t ∧
    (s.store? ⟨1⟩).map (·.checkClosable.isOk) = some true ∧ (t.store? ⟨1⟩).map (·.checkClosable.isOk) = some false ∧
    s.bindings.view ⟨1⟩ ⟨0⟩ = none ∧ t.bindings.view ⟨1⟩ ⟨0⟩ = some ⟨2, 0⟩ := by
  let o : Object := .array [.indirect ⟨0⟩, .real (Float.ofBits 0x7ff8000000000000)]
  let calls : List Call := [.createStore .memory ⟨"1.4", false, 2, 2⟩, .createStore .memory ⟨"1.4", false, 2, 2⟩,
    .writeNew ⟨0⟩ (.boolean true), .writeNew ⟨1⟩ (.boolean false), .setCatalog ⟨1⟩ ⟨1⟩]
  have hrun := runs_events perform calls (ofFilters .standard)
  have hmem : ∀ ev ∈ Operation.events perform calls (ofFilters .standard), ev.call.inMemory := by
    decide +kernel
  have hfails : ((write ⟨1⟩ o).outcome (Operation.after perform calls (ofFilters .standard))).isOk = false := by
    decide +kernel
  obtain ⟨e, he⟩ := Operation.error_of_outcome hfails
  exact ⟨_, _, _, e, hrun, Operation.map_call_events perform calls _, hmem, he, by decide +kernel,
    by decide +kernel, by decide +kernel, by decide +kernel⟩

end Session

end PdfStore
