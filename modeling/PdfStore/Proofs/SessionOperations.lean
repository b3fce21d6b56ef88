import PdfStore.Proofs.Delivery
import PdfStore.Session.Write

/-!
# What the operations of a session do

Looking up the identity of a reference and writing one are transfers. Deleting and closing take identities
away and move sources to stores that hold the same reference.
-/

namespace PdfStore.Session

variable {s t u : Session} {i j : StoreId} {r q : Reference} {id : ObjectId} {o : Object} {st st' : Store}
variable {scope : StoreId → Prop} {want : StoreId → Reference → Option Object}

/-! ## Looking up an identity -/

/-- References take their objects along to stores they are not bound to. -/
def fetching (s : Session) : StoreId → Reference → Option Object := fun j q =>
  if s.bindings.view j q = none then s.origin q else none

theorem fetching_unbound (h : s.bindings.view i q = none) : s.fetching i q = s.origin q := if_pos h

theorem fetching_bound (h : s.bindings.view i q = some id) : s.fetching i q = none :=
  if_neg (by rw [h]; simp)

theorem origin_of_fetching (h : s.fetching i q = some o) : s.bindings.view i q = none ∧ s.origin q = some o := by
  unfold fetching at h
  split at h
  · exact ⟨‹_›, h⟩
  · cases h

theorem sound_of_origin (h : s.WellFormed) (ho : s.origin q = some o) : s.Sound o := by
  obtain ⟨i, b, -, hp⟩ := origin_eq_some ho
  exact h.sound hp

theorem owed_nil (s : Session) (i : StoreId) : Owed i s.fetching [] s where
  due := by simp
  paid := fun hq hw => by
    rw [fetching_bound hq] at hw
    cases hw

/-- The errors of a transfer whose objects can be written. -/
def Full (s : Session) (i : StoreId) (e : SessionError) : Prop :=
  e = .store (.table .full) ∨ e = .store .device ∧ ∃ st, s.store? i = some st ∧ st.output.device = .full

theorem bindInto_unknown (hk : ¬ s.bindings.Knows r) (i : StoreId) :
    bindInto i r s = .error (.unknownReference r) s :=
  Operation.bind_of_error (look_of_error (Bindings.get_unknown hk))

theorem bindInto_storeClosed (h : s.WellFormed) (hst : s.store? i = none) (hk : s.bindings.Knows r) :
    bindInto i r s = .error (.storeClosed i) s := by
  obtain ⟨b, hb, hget⟩ := Bindings.get_known hk
  have hn : b.identity? i = none := by
    rw [← Bindings.view_of_entry hb, ← h.place_eq_absent]
    exact place_closed hst
  rw [bindInto, Operation.bind_of_ok (look_of_ok hget)]
  simp only [hn]
  exact Operation.bind_of_error (onStore_closed hst)

/-- A store that is closed gives out no identities. -/
theorem bindInto_closed (h : s.WellFormed) (hst : s.store? i = none) (r : Reference) :
    ∃ e, bindInto i r s = .error e s := by
  by_cases hk : s.bindings.Knows r
  · exact ⟨_, bindInto_storeClosed h hst hk⟩
  · exact ⟨_, bindInto_unknown hk i⟩

theorem sets_of_bindInto {more : List Delivery} (h : s.WellFormed) (hn : s.bindings.view i r = none)
    (hok : bindInto i r s = .ok (id, more) t) : Sets i r id .pending s t := by
  cases hst : s.store? i with
  | none =>
      obtain ⟨e, he⟩ := bindInto_closed h hst r
      rw [hok] at he
      cases he
  | some st =>
      rcases bindInto_cases h hst r with ⟨-, he⟩ | ⟨id', hv, -⟩ | ⟨-, he⟩ | ⟨-, id', t', hs, hok'⟩
      · rw [hok] at he
        cases he
      · rw [hn] at hv
        cases hv
      · rw [hok] at he
        cases he
      · rw [hok] at hok'
        cases hok'
        exact hs

theorem identityFor_of_drain {pending : List Delivery} (hok : bindInto i r s = .ok (id, pending) t)
    (hd : drain i pending t = .ok () u) : identityFor r i s = .ok id u :=
  (Operation.bind_of_ok hok).trans (Operation.bind_of_ok hd)

/-- A reference gets an identity in an open store, unless there is no room. -/
theorem identityFor_open (h : s.WellFormed) (hst : s.store? i = some st) (hk : s.bindings.Knows r) :
    (∃ id t, identityFor r i s = .ok id t ∧ Transfer (· = i) s.fetching s t ∧ Settled (· = i) s.fetching t ∧
      t.bindings.view i r = some id) ∨
    (∃ e t, identityFor r i s = .error e t ∧ Transfer (· = i) s.fetching s t ∧ s.Full i e) := by
  rcases bindInto_cases h hst r with ⟨hk', -⟩ | ⟨id, hv, hok⟩ | ⟨-, he⟩ | ⟨hn, id, t, hs, hok⟩
  · exact absurd hk hk'
  · exact Or.inl ⟨id, s, identityFor_of_drain hok (by rw [drain]), .refl h, (owed_nil s i).settled, hv⟩
  · exact Or.inr ⟨_, s, Operation.bind_of_error he, .refl h, Or.inl rfl⟩
  · have ht : Transfer (· = i) s.fetching s t := hs.transfer_bind rfl hn
    have hf : Fetches i s.fetching s := fun q hq => fetching_unbound hq
    have howed : Owed i s.fetching ((s.origin r).toList.map (Delivery.mk id)) t := by
      have ho : Owed i s.fetching ([] ++ ((s.origin r).toList.map (Delivery.mk id) ++ [])) t :=
        Owed.bind (owed_nil s i) hs hn (hf r hn)
      rwa [List.nil_append, List.append_nil] at ho
    have hsound : ∀ q o, s.fetching i q = some o → t.Sound o := fun q o hq =>
      ht.sound (sound_of_origin h (origin_of_fetching hq).2)
    have hv : t.bindings.view i r = some id := (hs.view i r).trans (if_pos ⟨rfl, rfl⟩)
    obtain ⟨st', hst', hd⟩ := ht.isOpen hst
    rcases drain_cases hs.wellFormed hst' (hf.transfer h ht) howed hsound with
      ⟨u, hok', ht', ho'⟩ | ⟨e, u, he, ht', hc⟩
    · exact Or.inl ⟨id, u, identityFor_of_drain hok hok', ht.trans ht', ho'.settled, ht'.view hv⟩
    · refine Or.inr ⟨e, u, ?_, ht.trans ht', hc.imp_right fun hc => ⟨hc.1, st, hst, hd ▸ hc.2⟩⟩
      exact (Operation.bind_of_ok hok).trans (Operation.bind_of_error he)

theorem identityFor_cases (h : s.WellFormed) (r : Reference) (i : StoreId) :
    (∃ id t, identityFor r i s = .ok id t ∧ Transfer (· = i) s.fetching s t ∧ Settled (· = i) s.fetching t ∧
      t.bindings.view i r = some id) ∨
    (∃ e, identityFor r i s = .error e s) ∨
    (∃ e t, identityFor r i s = .error e t ∧ Transfer (· = i) s.fetching s t ∧ s.Full i e) := by
  cases hst : s.store? i with
  | none =>
      obtain ⟨e, he⟩ := bindInto_closed h hst r
      exact Or.inr (Or.inl ⟨e, Operation.bind_of_error he⟩)
  | some st =>
      by_cases hk : s.bindings.Knows r
      · exact (identityFor_open h hst hk).imp_right Or.inr
      · exact Or.inr (Or.inl ⟨_, Operation.bind_of_error (bindInto_unknown hk i)⟩)

/-- A reference that is written nowhere brings nothing along. -/
theorem identityFor_fresh (h : s.WellFormed) (hst : s.store? i = some st) (hk : s.bindings.Knows r)
    (hn : s.bindings.view i r = none) (ho : s.origin r = none) :
    (∃ id t, identityFor r i s = .ok id t ∧ bindInto i r s = .ok (id, []) t) ∨
      identityFor r i s = .error (.store (.table .full)) s := by
  rcases bindInto_cases h hst r with ⟨hk', -⟩ | ⟨id, hv, -⟩ | ⟨-, he⟩ | ⟨-, id, t, -, hok⟩
  · exact absurd hk hk'
  · rw [hn] at hv
    cases hv
  · exact Or.inr (Operation.bind_of_error he)
  · rw [ho] at hok
    exact Or.inl ⟨id, t, identityFor_of_drain hok (by rw [Option.toList_none, List.map_nil, drain]), hok⟩

/-! ## Naming an object in the trailer -/

theorem onStore_same {x : Operation StoreError Store Unit} (h : s.WellFormed) (hst : s.store? i = some st)
    (hv : s.bindings.view i r = some id) (hok : x st = .ok () st') (hb : st.Becomes id (st.standing id) st') :
    ∃ t, onStore i x s = .ok () t ∧ Sets i r id (s.place i r) s t := by
  refine ⟨_, onStore_ok hst hok, ?_⟩
  rw [← place_of_view hst hv] at hb
  refine sets_of_becomes h hst hb (h.bound hv) (fun q hq => (h.distinct hv hq).symm) ?_ (fun _ => rfl) rfl
    h.ascending (fun o b hp => ⟨o, b, hp⟩) (fun o b hp => h.sound hp)
  intro j q
  split
  · rename_i heq
    rw [heq.1, heq.2, hv]
  · rfl

theorem named_cases {x : ObjectId → Operation StoreError Store Unit} (h : s.WellFormed)
    (hx : ∀ {st id}, st.WellFormed → st.standing id ≠ .absent →
      ∃ st', x id st = .ok () st' ∧ st.Becomes id (st.standing id) st') (r : Reference) (i : StoreId) :
    let y : Operation SessionError Session Unit := do
      let id ← identityFor r i
      onStore i (x id)
    (∃ t, y s = .ok () t ∧ Transfer (· = i) s.fetching s t ∧ Settled (· = i) s.fetching t) ∨
    (∃ e, y s = .error e s) ∨
    (∃ e t, y s = .error e t ∧ Transfer (· = i) s.fetching s t ∧ s.Full i e) := by
  rcases identityFor_cases h r i with ⟨id, t, hok, ht, ho, hv⟩ | ⟨e, he⟩ | ⟨e, t, he, ht, hc⟩
  · obtain ⟨st, hst⟩ := store_of_place (ht.wellFormed.bound hv)
    have hlive : st.standing id ≠ .absent := place_of_view hst hv ▸ ht.wellFormed.bound hv
    obtain ⟨st', hok', hb⟩ := hx (ht.wellFormed.stores hst) hlive
    obtain ⟨u, hok'', hs⟩ := onStore_same ht.wellFormed hst hv hok' hb
    refine Or.inl ⟨u, (Operation.bind_of_ok hok).trans hok'', ht.trans (hs.transfer_same hv), ?_⟩
    intro j q o hj hp hw
    rw [hs.place_eq] at hp ⊢
    exact ho hj hp hw
  · exact Or.inr (Or.inl ⟨e, Operation.bind_of_error he⟩)
  · exact Or.inr (Or.inr ⟨e, t, Operation.bind_of_error he, ht, hc⟩)

/-! ## Writing in one store -/

/-- One reference gets an object, while the others take theirs along. -/
def rewriting (s : Session) (r : Reference) (o : Object) : StoreId → Reference → Option Object := fun j q =>
  if q = r then some o else s.fetching j q

theorem rewriting_self : s.rewriting r o i r = some o := if_pos rfl

theorem rewriting_of_ne (h : q ≠ r) : s.rewriting r o i q = s.fetching i q := if_neg h

theorem fetches_rewriting (hv : s.bindings.view i r = some id) : Fetches i (s.rewriting r o) s := by
  intro q hq
  have hne : q ≠ r := fun heq => by
    rw [heq, hv] at hq
    cases hq
  rw [rewriting_of_ne hne, fetching_unbound hq]

theorem owed_rewriting (hv : s.bindings.view i r = some id) : Owed i (s.rewriting r o) [⟨id, o⟩] s := by
  constructor
  case due =>
    intro d hd
    rw [List.mem_singleton.1 hd]
    exact ⟨r, hv, rewriting_self⟩
  case paid =>
    intro q id' o' hq hw
    by_cases hne : q = r
    · rw [hne, rewriting_self] at hw
      rw [hne, hv] at hq
      cases hq
      cases hw
      exact Or.inl List.mem_cons_self
    · rw [rewriting_of_ne hne, fetching_bound hq] at hw
      cases hw

theorem drain_write_cases (h : s.WellFormed) (hv : s.bindings.view i r = some id) (ho : s.Sound o) :
    (∃ t, drain i [⟨id, o⟩] s = .ok () t ∧ Transfer (· = i) (s.rewriting r o) s t ∧
      Settled (· = i) (s.rewriting r o) t) ∨
    (∃ e t, drain i [⟨id, o⟩] s = .error e t ∧ Transfer (· = i) (s.rewriting r o) s t ∧ s.Full i e) := by
  obtain ⟨st, hst⟩ := store_of_place (h.bound hv)
  have hsound : ∀ q o', s.rewriting r o i q = some o' → s.Sound o' := by
    intro q o' hq
    by_cases hne : q = r
    · rw [hne, rewriting_self] at hq
      cases hq
      exact ho
    · rw [rewriting_of_ne hne] at hq
      exact sound_of_origin h (origin_of_fetching hq).2
  rcases drain_cases h hst (fetches_rewriting hv) (owed_rewriting hv) hsound with
    ⟨t, hok, ht, ho'⟩ | ⟨e, t, he, ht, hc⟩
  · exact Or.inl ⟨t, hok, ht, ho'.settled⟩
  · exact Or.inr ⟨e, t, he, ht, hc.imp_right fun hc => ⟨hc.1, st, hst, hc.2⟩⟩

theorem drain_write_unsound (h : s.WellFormed) (hv : s.bindings.view i r = some id) (ho : ¬ s.Sound o) :
    ∃ e t, drain i [⟨id, o⟩] s = .error e t ∧ Transfer (· = i) nothing s t := by
  obtain ⟨st, hst⟩ := store_of_place (h.bound hv)
  exact drain_unsound h hst (fetches_rewriting hv) (owed_rewriting hv) ho

theorem sound_of_drain (h : s.WellFormed) (hv : s.bindings.view i r = some id)
    (hok : drain i [⟨id, o⟩] s = .ok () t) : s.Sound o := by
  by_contra ho
  obtain ⟨e, u, he, -⟩ := drain_write_unsound h hv ho
  rw [hok] at he
  cases he

/-! ## New references and new stores -/

/-- A session that has more references, or one store more, and is the same otherwise. -/
structure Extends (new : Option Store) (s t : Session) : Prop where
  wellFormed : t.WellFormed
  source : ∀ q, t.bindings.source q = s.bindings.source q
  size : s.stores.length ≤ t.stores.length
  view : ∀ j q, t.bindings.view j q = s.bindings.view j q
  place : ∀ j q, t.place j q = s.place j q
  store : ∀ {j st}, t.store? j = some st → s.store? j = some st ∨ j = ⟨s.stores.length⟩ ∧ new = some st

variable {new : Option Store}

theorem Extends.refl (h : s.WellFormed) : Extends new s s :=
  ⟨h, fun _ => rfl, Nat.le_refl _, fun _ _ => rfl, fun _ _ => rfl, fun h => Or.inl h⟩

theorem Extends.faithful (h : Extends new s t) (hf : s.Faithful j) : t.Faithful j := by
  intro q id o b hq hp
  have hview : t.bindings.view j = s.bindings.view j := funext (h.view j)
  rw [hview] at hq ⊢
  rw [h.place] at hp
  exact hf hq hp

theorem extends_of (h : s.WellFormed) (hsource : ∀ q, t.bindings.source q = s.bindings.source q)
    (hview : ∀ j q, t.bindings.view j q = s.bindings.view j q)
    (hcount : s.bindings.entries.length ≤ t.bindings.entries.length)
    (hsize : s.stores.length ≤ t.stores.length) (hasc : t.bindings.Ascending)
    (hold : ∀ {j st}, s.store? j = some st → t.store? j = some st)
    (hstore : ∀ {j st}, t.store? j = some st →
      s.store? j = some st ∨ j = ⟨s.stores.length⟩ ∧ new = some st)
    (hnew : ∀ st, new = some st → st.WellFormed) : Extends new s t := by
  have hplace : ∀ j q, t.place j q = s.place j q := by
    intro j q
    cases hv : s.bindings.view j q with
    | none => rw [place_unbound hv, place_unbound ((hview j q).trans hv)]
    | some id =>
        obtain ⟨st, hst⟩ := store_of_place (h.bound hv)
        rw [place_of_view hst hv, place_of_view (hold hst) ((hview j q).trans hv)]
  refine ⟨?_, hsource, hsize, hview, hplace, hstore⟩
  refine h.of_kept (fun hj => (hstore hj).elim (fun hj => h.stores hj) fun hn => hnew _ hn.2) hasc hcount
    (fun hv => ⟨(hview _ _).symm.trans hv, hplace _ _⟩) fun hq => ?_
  rw [hsource] at hq
  rw [hplace]
  exact h.source hq

theorem extends_register (h : s.WellFormed) (c : Codec) : Extends none s (register c s).2 :=
  extends_of h (fun _ => rfl) (fun _ _ => rfl) (Nat.le_refl _) (Nat.le_refl _) h.ascending (fun h => h)
    (fun h => Or.inl h) (by simp)

theorem newReference_cases (h : s.WellFormed) :
    (∃ t, newReference s = .ok ⟨s.bindings.entries.length⟩ t ∧ Extends none s t) ∨
      newReference s = .error (.arenaFull "reference") s := by
  by_cases hlt : s.bindings.entries.length < maxHandles
  · refine Or.inl ⟨_, onBindings_ok (Bindings.create_ok hlt), extends_of h
      (fun q => Bindings.source_create _ q) (fun j q => Bindings.view_create _ j q) ?_
      (Nat.le_refl _) (Bindings.ascending_create h.ascending) (fun h => h) (fun h => Or.inl h) (by simp)⟩
    simp only [List.length_append]
    exact Nat.le_add_right _ _
  · exact Or.inr (onBindings_error (Bindings.create_full (Nat.le_of_not_lt hlt)))

theorem newReference_ok (h : newReference s = .ok r t) :
    r = ⟨s.bindings.entries.length⟩ ∧ t = { s with bindings := ⟨s.bindings.entries ++ [.empty]⟩ } := by
  rw [newReference, onBindings] at h
  obtain ⟨u, hu, rfl⟩ := Operation.onPart_ok h
  by_cases hlt : s.bindings.entries.length < maxHandles
  · rw [Bindings.create_ok hlt] at hu
    cases hu
    exact ⟨rfl, rfl⟩
  · rw [Bindings.create_full (Nat.le_of_not_lt hlt)] at hu
    cases hu

theorem extends_of_newReference (h : s.WellFormed) (hok : newReference s = .ok r t) : Extends none s t := by
  rcases newReference_cases h with ⟨t', hok', he⟩ | hfull
  · rw [hok] at hok'
    cases hok'
    exact he
  · rw [hok] at hfull
    cases hfull

theorem unbound_of_newReference (h : newReference s = .ok r t) :
    t.bindings.Knows r ∧ (∀ j, t.bindings.view j r = none) ∧ t.origin r = none := by
  obtain ⟨rfl, rfl⟩ := newReference_ok h
  have hentry : (s.bindings.entries ++ [Binding.empty])[s.bindings.entries.length]? = some .empty := by simp
  refine ⟨by simp [Bindings.Knows], fun j => ?_, ?_⟩
  · rw [Bindings.view, hentry]
    rfl
  · rw [origin, Bindings.source, hentry]
    rfl

theorem store?_append (s : Session) (st : Store) (j : StoreId) :
    ({ s with stores := s.stores ++ [some st] } : Session).store? j =
      if j = ⟨s.stores.length⟩ then some st else s.store? j := by
  rw [store?, store?, List.getElem?_append]
  by_cases hj : j = ⟨s.stores.length⟩
  · rw [if_pos hj, hj, if_neg (Nat.lt_irrefl _), Nat.sub_self]
    rfl
  · rw [if_neg hj]
    split
    · rfl
    · rename_i hlt
      have hne : j.index - s.stores.length ≠ 0 := fun h₀ => hj (by
        cases j
        simp only [StoreId.mk.injEq]
        simp only at hlt h₀
        omega)
      rw [List.getElem?_eq_none (by simp only [List.length_singleton]; omega),
        List.getElem?_eq_none (Nat.le_of_not_lt hlt)]

theorem createStore_of_ok {device : Device} {config : Config} (hst : Store.create device config = .ok st) :
    createStore device config s = openStore st s := by
  rw [createStore, hst]
  rfl

theorem createStore_of_error {device : Device} {config : Config} {e : StoreError}
    (he : Store.create device config = .error e) : createStore device config s = .error (.store e) s := by
  rw [createStore, he]
  rfl

theorem openStore_cases (h : s.WellFormed) (hst : st.WellFormed) :
    (∃ t, openStore st s = .ok ⟨s.stores.length⟩ t ∧ Extends (some st) s t ∧
      t.store? ⟨s.stores.length⟩ = some st) ∨
      openStore st s = .error (.arenaFull "store") s := by
  rw [openStore, Operation.bind_of_ok (Operation.get_apply s)]
  by_cases hlt : maxHandles ≤ s.stores.length
  · simp only [if_pos hlt]
    exact Or.inr rfl
  · simp only [if_neg hlt]
    have hnone : s.store? ⟨s.stores.length⟩ = none := by
      rw [store?, List.getElem?_eq_none (Nat.le_refl _)]
      rfl
    refine Or.inl ⟨_, rfl, extends_of h (fun _ => rfl) (fun _ _ => rfl) (Nat.le_refl _) ?_ h.ascending
      ?_ ?_ ?_, ?_⟩
    · simp
    · intro j st' hj
      rw [store?_append, if_neg]
      · exact hj
      · rintro rfl
        rw [hnone] at hj
        cases hj
    · intro j st' hj
      rw [store?_append] at hj
      split at hj
      · exact Or.inr ⟨‹_›, hj⟩
      · exact Or.inl hj
    · rintro st' ⟨⟩
      exact hst
    · rw [store?_append, if_pos rfl]

end PdfStore.Session
