import PdfStore.Proofs.Transfers
import PdfStore.Session.Transfer

/-!
# Delivering objects

Binding a reference to a store makes its object due there, and delivering an object makes the objects of
its references due (`Owed`). A transfer that comes to its end has delivered all of them; it breaks off only
when the table of the store or its device is full, or when the object it began with cannot be written.
-/

namespace PdfStore.Session

variable {s t u : Session} {i j : StoreId} {r q : Reference} {id : ObjectId} {o : Object} {st st' : Store}
variable {scope : StoreId → Prop} {want : StoreId → Reference → Option Object}
variable {d : Delivery} {pending : List Delivery}

/-! ## Operations on parts -/

theorem look_of_ok {α : Type} {f : Session → Except SessionError α} {a : α} (h : f s = .ok a) :
    look f s = .ok a s := by
  rw [look, Operation.bind_of_ok (Operation.get_apply s), h]
  rfl

theorem look_of_error {α : Type} {f : Session → Except SessionError α} {e : SessionError} (h : f s = .error e) :
    look f s = .error e s := by
  rw [look, Operation.bind_of_ok (Operation.get_apply s), h]
  rfl

theorem onStore_ok {α : Type} {x : Operation StoreError Store α} {a : α} (hst : s.store? i = some st)
    (h : x st = .ok a st') : onStore i x s = .ok a (s.setStore i (some st')) := by
  simp only [onStore, hst, h]

theorem setStore_self (hst : s.store? i = some st) : s.setStore i (some st) = s := by
  unfold store? at hst
  cases hi : s.stores[i.index]? with
  | none => simp [hi] at hst
  | some x =>
      simp only [hi, Option.join_some] at hst
      subst hst
      obtain ⟨hlt, hget⟩ := List.getElem?_eq_some_iff.1 hi
      rw [setStore, ← hget, List.set_getElem_self]

theorem onStore_error {α : Type} {x : Operation StoreError Store α} {e : StoreError}
    (hst : s.store? i = some st) (h : x st = .error e st) : onStore i x s = .error (.store e) s := by
  simp only [onStore, hst, h, setStore_self hst]

theorem onStore_closed {α : Type} {x : Operation StoreError Store α} (hst : s.store? i = none) :
    onStore i x s = .error (.storeClosed i) s := by
  simp only [onStore, hst]

theorem onBindings_ok {α : Type} {x : Operation SessionError Bindings α} {a : α} {u : Bindings}
    (h : x s.bindings = .ok a u) : onBindings x s = .ok a { s with bindings := u } :=
  Operation.onPart_of_ok h

theorem onBindings_error {α : Type} {x : Operation SessionError Bindings α} {e : SessionError} {u : Bindings}
    (h : x s.bindings = .error e u) : onBindings x s = .error e { s with bindings := u } :=
  Operation.onPart_of_error h

/-! ## Binding a reference -/

theorem objectAt_written {b : Bytes} (h : s.place i r = .written o b) (hv : s.bindings.view i r = some id) :
    objectAt (i, id) s = .ok (some o) := by
  have hne : s.place i r ≠ .absent := by simp [h]
  obtain ⟨st, hst⟩ := store_of_place hne
  rw [place_of_view hst hv] at h
  simp only [objectAt, store, hst, Store.resolve_written h, Except.toOption, bind, Except.bind, pure, Except.pure]

/-- What becomes due when a reference has just been bound. -/
theorem origin?_cases {b : Binding} (h : s.WellFormed) (hb : s.bindings.entries[r.index]? = some b) :
    b.origin? = none ∧ s.origin r = none ∨
      ∃ j id o b', b.origin? = some (j, id) ∧ s.origin r = some o ∧ s.bindings.view j r = some id ∧
        s.place j r = .written o b' := by
  have hsource := Bindings.source_of_entry hb
  cases hs : b.source with
  | none =>
      rw [hs] at hsource
      refine Or.inl ⟨?_, ?_⟩
      · rw [Binding.origin?, hs]
        rfl
      · rw [origin, hsource]
        rfl
  | some j =>
      rw [hs] at hsource
      obtain ⟨o, b', hp⟩ := h.source hsource
      have hne : s.place j r ≠ .absent := by simp [hp]
      obtain ⟨id, hid⟩ := view_of_place hne
      refine Or.inr ⟨j, id, o, b', ?_, origin_of_source hsource hp, hid, hp⟩
      rw [Bindings.view_of_entry hb] at hid
      rw [Binding.origin?, hs, Option.bind_some, hid]
      rfl

theorem bindInto_new {b : Binding} {st' : Store} (h : s.WellFormed) (hst : s.store? i = some st)
    (hb : s.bindings.entries[r.index]? = some b) (hn : b.identity? i = none)
    (hok : Store.reserve st = .ok id st') (habs : st.standing id = .absent) (hbec : st.Becomes id .pending st') :
    ∃ t, Sets i r id .pending s t ∧
      bindInto i r s = .ok (id, (s.origin r).toList.map (Delivery.mk id)) t := by
  have hk : s.bindings.Knows r := (List.getElem?_eq_some_iff.1 hb).1
  have hnone : s.bindings.view i r = none := (Bindings.view_of_entry hb i).trans hn
  have hget : s.bindings.get r = .ok b := by rw [Bindings.get, hb]
  have hsets := sets_of_becomes h hst hbec (by simp)
    (fun q hq => absurd (place_of_view hst hq ▸ habs) (h.bound hq))
    (fun j q => Bindings.view_bind hk i j q id) (fun q => Bindings.source_bind _ r q i id)
    (Bindings.length_modify _ _ _) (Bindings.ascending_bind h.ascending)
    (fun o b hp => by rw [place_unbound hnone] at hp; cases hp) (by simp)
  have hbound : onBindings (Bindings.bind r i id) (s.setStore i (some st')) = .ok () { s with
      stores := s.stores.set i.index (some st'), bindings := s.bindings.modify r (·.bind i id) } :=
    onBindings_ok (Bindings.bind_known hk i id)
  refine ⟨_, hsets, ?_⟩
  rw [bindInto, Operation.bind_of_ok (look_of_ok hget)]
  simp only [hn]
  rw [Operation.bind_of_ok (onStore_ok hst hok), Operation.bind_of_ok hbound]
  rcases origin?_cases h hb with ⟨ho, hno⟩ | ⟨j, id', o, b', ho, hso, hv, hp⟩
  · simp only [ho, hno]
    rfl
  · -- The store that the object is taken from is another one.
    have hne : ¬ (j = i ∧ r = r) := fun heq => by
      rw [heq.1, hnone] at hv
      cases hv
    have hp' := (hsets.place j r).trans ((if_neg hne).trans hp)
    have hv' := (hsets.view j r).trans ((if_neg hne).trans hv)
    simp only [ho, hso]
    rw [Operation.bind_of_ok (look_of_ok (objectAt_written hp' hv'))]
    rfl

theorem bindInto_cases (h : s.WellFormed) (hst : s.store? i = some st) (r : Reference) :
    (¬ s.bindings.Knows r ∧ bindInto i r s = .error (.unknownReference r) s) ∨
    (∃ id, s.bindings.view i r = some id ∧ bindInto i r s = .ok (id, []) s) ∨
    (s.bindings.view i r = none ∧ bindInto i r s = .error (.store (.table .full)) s) ∨
    (s.bindings.view i r = none ∧ ∃ id t, Sets i r id .pending s t ∧
      bindInto i r s = .ok (id, (s.origin r).toList.map (Delivery.mk id)) t) := by
  by_cases hk : s.bindings.Knows r
  · obtain ⟨b, hb, hget⟩ := Bindings.get_known hk
    have hlook : look (·.binding r) s = .ok b s := look_of_ok hget
    have hview := Bindings.view_of_entry hb i
    cases hv : b.identity? i with
    | some id =>
        refine Or.inr (Or.inl ⟨id, hview.trans hv, ?_⟩)
        rw [bindInto, Operation.bind_of_ok hlook]
        simp only [hv]
        rfl
    | none =>
        rcases Store.reserve_cases (h.stores hst) with ⟨id, st', hok, habs, hbec⟩ | hfull
        · exact Or.inr (Or.inr (Or.inr ⟨hview.trans hv, id, bindInto_new h hst hb hv hok habs hbec⟩))
        · refine Or.inr (Or.inr (Or.inl ⟨hview.trans hv, ?_⟩))
          rw [bindInto, Operation.bind_of_ok hlook]
          simp only [hv]
          exact Operation.bind_of_error (onStore_error hst hfull)
  · exact Or.inl ⟨hk, Operation.bind_of_error (look_of_error (Bindings.get_unknown hk))⟩

/-! ## Writing an object -/

/-- Writing again or for the first time adds a body under an identity in use. -/
theorem put_store {refs : ReferenceTable} (h : st.WellFormed) (hv : st.standing id ≠ .absent) :
    (do
      if (← get).isWritten id then
        let _ ← Store.replaceAt id o refs
      else
        let _ ← Store.writeAt id o refs : Operation StoreError Store Unit) st =
      (do let _ ← Store.appendBody id o refs : Operation StoreError Store Unit) st := by
  rw [Operation.bind_of_ok (Operation.get_apply st)]
  by_cases hw : st.isWritten id = true
  · simp only [hw, if_true]
    rw [Operation.bind_apply, Store.replaceAt_live hv]
    rfl
  · simp only [hw]
    have hp : st.standing id = .pending := by
      have := (Store.isWritten_iff h id).not.1 hw
      cases hs : st.standing id with
      | absent => exact absurd hs hv
      | pending => rfl
      | written o b => exact absurd ⟨o, b, hs⟩ this
    refine (Operation.bind_apply _ _ _).trans ?_
    rw [Store.writeAt_pending h hp]
    rfl

theorem put_cases (h : s.WellFormed) (hst : s.store? i = some st)
    (hv : s.bindings.view i q = some d.id) (hrefs : ∀ r ∈ d.object.references, (s.bindings.view i r).isSome) :
    (∃ c t, put i d s = .ok () t ∧ d.object.toBytes (some (s.bindings.view i)) = .ok c ∧
      Sets i q d.id (.written d.object (FileText.object d.id c)) s t) ∨
    (∃ e, put i d s = .error (.store (.object e)) s ∧ d.object.toBytes (some (s.bindings.view i)) = .error e) ∨
    put i d s = .error (.store .device) s ∧ st.output.device = .full := by
  have hlive : st.standing d.id ≠ .absent := place_of_view hst hv ▸ h.bound hv
  have htable : look (·.table i) s = .ok (s.bindings.view i) s := by
    refine look_of_ok ?_
    simp only [table, store, hst, bind, Except.bind, pure, Except.pure]
  rw [put, Operation.bind_of_ok htable]
  rcases Store.appendBody_cases (h.stores hst) hlive d.object (s.bindings.view i) with
    ⟨c, st', hok, hc, hbec⟩ | ⟨e, he, hbytes⟩ | ⟨he, hd⟩
  · refine Or.inl ⟨c, _, onStore_ok hst ((put_store (h.stores hst) hlive).trans (Operation.bind_of_ok hok)),
      hc, ?_⟩
    refine sets_of_becomes h hst hbec (by simp) (fun r hr => (h.distinct hv hr).symm) ?_ (fun _ => rfl) rfl
      h.ascending (fun _ _ _ => ⟨_, _, rfl⟩) ?_
    · intro j r
      split
      · rename_i heq
        rw [heq.1, heq.2, hv]
      · rfl
    · rintro o b ⟨⟩
      refine ⟨Object.finite_of_toBytes hc, fun r hr => ?_⟩
      obtain ⟨id, hid⟩ := Option.isSome_iff_exists.1 (hrefs r hr)
      exact Bindings.known_of_view hid
  · exact Or.inr (Or.inl ⟨e, onStore_error hst ((put_store (h.stores hst) hlive).trans
      (Operation.bind_of_error he)), hbytes⟩)
  · exact Or.inr (Or.inr ⟨onStore_error hst ((put_store (h.stores hst) hlive).trans
      (Operation.bind_of_error he)), hd⟩)

/-! ## What is due -/

def nothing : StoreId → Reference → Option Object := fun _ _ => none

/-- Of references that are not bound to the store, what they take along is wanted there. -/
def Fetches (i : StoreId) (want : StoreId → Reference → Option Object) (s : Session) : Prop :=
  ∀ q, s.bindings.view i q = none → want i q = s.origin q

/-- What is wanted has been written or is pending, and nothing else is pending. -/
structure Owed (i : StoreId) (want : StoreId → Reference → Option Object) (pending : List Delivery)
    (s : Session) : Prop where
  due : ∀ d ∈ pending, ∃ q, s.bindings.view i q = some d.id ∧ want i q = some d.object
  paid : ∀ {q id o}, s.bindings.view i q = some id → want i q = some o →
    ⟨id, o⟩ ∈ pending ∨ ∃ b, s.place i q = .written o b

theorem Transfer.of_nothing (h : Transfer scope nothing s t) : Transfer scope want s t :=
  h.mono (fun _ hj => hj) fun _ _ _ h => by cases h

theorem Fetches.transfer (hf : Fetches i want s) (h : s.WellFormed) (ht : Transfer (· = i) want s t) :
    Fetches i want t := by
  intro q hq
  have hn : s.bindings.view i q = none := by
    cases hv : s.bindings.view i q with
    | none => rfl
    | some id =>
        rw [ht.view hv] at hq
        cases hq
  rw [hf q hn]
  refine (ht.origin h fun j hji hj => ?_).symm
  rw [hji] at hj
  exact absurd (place_unbound hn) hj

/-- Where references are bound, what was wanted stands. -/
def Settled (scope : StoreId → Prop) (want : StoreId → Reference → Option Object) (t : Session) : Prop :=
  ∀ {j q o}, scope j → t.place j q ≠ .absent → want j q = some o → ∃ b, t.place j q = .written o b

theorem Owed.settled (h : Owed i want [] t) : Settled (· = i) want t := by
  rintro j q o rfl hp hw
  obtain ⟨id, hv⟩ := view_of_place hp
  exact (h.paid hv hw).resolve_left List.not_mem_nil

theorem Owed.bind {front : List Delivery} (ho : Owed i want (front ++ pending) s)
    (hs : Sets i r id .pending s t) (hn : s.bindings.view i r = none) (hr : want i r = s.origin r) :
    Owed i want (front ++ ((s.origin r).toList.map (Delivery.mk id) ++ pending)) t := by
  have ht : Transfer (· = i) nothing s t := hs.transfer_bind rfl hn
  have hnew : t.bindings.view i r = some id := (hs.view i r).trans (if_pos ⟨rfl, rfl⟩)
  constructor
  case due =>
    intro d' hd'
    simp only [List.mem_append, List.mem_map, Option.mem_toList] at hd'
    rcases hd' with hd' | ⟨o, ho', rfl⟩ | hd'
    · obtain ⟨q, hq, hw⟩ := ho.due d' (List.mem_append_left _ hd')
      exact ⟨q, ht.view hq, hw⟩
    · exact ⟨r, hnew, hr.trans ho'⟩
    · obtain ⟨q, hq, hw⟩ := ho.due d' (List.mem_append_right _ hd')
      exact ⟨q, ht.view hq, hw⟩
  case paid =>
    intro q id' o hq hw
    by_cases hqr : q = r
    · subst hqr
      rw [hnew] at hq
      cases hq
      refine Or.inl (List.mem_append_right _ (List.mem_append_left _ ?_))
      exact List.mem_map.2 ⟨o, Option.mem_toList.2 (hr.symm.trans hw), rfl⟩
    · have hne : ¬ (i = i ∧ q = r) := fun h => hqr h.2
      rw [hs.view, if_neg hne] at hq
      rw [hs.place, if_neg hne]
      rcases ho.paid hq hw with hmem | hp
      · refine Or.inl ?_
        rcases List.mem_append.1 hmem with hmem | hmem
        · exact List.mem_append_left _ hmem
        · exact List.mem_append_right _ (List.mem_append_right _ hmem)
      · exact Or.inr hp

theorem Owed.put {b : Bytes} (ho : Owed i want (d :: pending) s) (h : s.WellFormed)
    (hq : s.bindings.view i q = some d.id) (hw : want i q = some d.object)
    (hs : Sets i q d.id (.written d.object b) s t) : Owed i want pending t := by
  have hview := hs.view_eq hq i
  constructor
  case due =>
    intro d' hd'
    obtain ⟨q', hq', hw'⟩ := ho.due d' (List.mem_cons_of_mem _ hd')
    exact ⟨q', (hview q').trans hq', hw'⟩
  case paid =>
    intro q' id' o hq' hw'
    rw [hview] at hq'
    rw [hs.place]
    by_cases hqq : q' = q
    · rw [hqq, hw] at hw'
      cases hw'
      exact Or.inr ⟨b, if_pos ⟨rfl, hqq⟩⟩
    · rw [if_neg fun h => hqq h.2]
      rcases ho.paid hq' hw' with hmem | hp
      · rcases List.mem_cons.1 hmem with heq | hmem
        · rw [← heq] at hq
          exact absurd (h.distinct hq' hq) hqq
        · exact Or.inl hmem
      · exact Or.inr hp

/-! ## Delivering -/

theorem bindAll_cases {refs : List Reference} (h : s.WellFormed) (hst : s.store? i = some st)
    (hf : Fetches i want s) (ho : Owed i want (d :: pending) s) :
    (∃ pending' t, bindAll i refs pending s = .ok pending' t ∧ Transfer (· = i) nothing s t ∧
      Owed i want (d :: pending') t ∧ ∀ r ∈ refs, (t.bindings.view i r).isSome) ∨
    (∃ e t, bindAll i refs pending s = .error e t ∧ Transfer (· = i) nothing s t ∧
      (e = .store (.table .full) ∨ ∃ r ∈ refs, ¬ s.bindings.Knows r)) := by
  induction refs generalizing s pending st with
  | nil => exact Or.inl ⟨pending, s, rfl, .refl h, ho, by simp⟩
  | cons r rest ih =>
      rcases bindInto_cases h hst r with ⟨hk, he⟩ | ⟨id, hv, hok⟩ | ⟨hn, he⟩ | ⟨hn, id, t, hs, hok⟩
      · exact Or.inr ⟨_, s, Operation.bind_of_error he, .refl h, Or.inr ⟨r, List.mem_cons_self, hk⟩⟩
      · rcases ih h hst hf ho with ⟨p, u, hok', ht, ho', hb⟩ | ⟨e, u, he, ht, hc⟩
        · refine Or.inl ⟨p, u, (Operation.bind_of_ok hok).trans hok', ht, ho', fun r' hr' => ?_⟩
          rcases List.mem_cons.1 hr' with rfl | hr'
          · rw [ht.view hv]
            rfl
          · exact hb r' hr'
        · refine Or.inr ⟨e, u, (Operation.bind_of_ok hok).trans he, ht, hc.imp_right ?_⟩
          exact fun ⟨r', hr', hk⟩ => ⟨r', List.mem_cons_of_mem _ hr', hk⟩
      · exact Or.inr ⟨_, s, Operation.bind_of_error he, .refl h, Or.inl rfl⟩
      · have ht₁ : Transfer (· = i) nothing s t := hs.transfer_bind rfl hn
        obtain ⟨st', hst', -⟩ := ht₁.isOpen hst
        have hnew : t.bindings.view i r = some id := (hs.view i r).trans (if_pos ⟨rfl, rfl⟩)
        have ho₁ : Owed i want ([d] ++ ((s.origin r).toList.map (Delivery.mk id) ++ pending)) t :=
          Owed.bind ho hs hn (hf r hn)
        rcases ih hs.wellFormed hst' (hf.transfer h ht₁.of_nothing) ho₁ with
          ⟨p, u, hok', ht, ho', hb⟩ | ⟨e, u, he, ht, hc⟩
        · refine Or.inl ⟨p, u, (Operation.bind_of_ok hok).trans hok', ht₁.trans ht, ho', fun r' hr' => ?_⟩
          rcases List.mem_cons.1 hr' with rfl | hr'
          · rw [ht.view hnew]
            rfl
          · exact hb r' hr'
        · refine Or.inr ⟨e, u, (Operation.bind_of_ok hok).trans he, ht₁.trans ht, hc.imp_right ?_⟩
          exact fun ⟨r', hr', hk⟩ => ⟨r', List.mem_cons_of_mem _ hr', fun hk' => hk (ht₁.knows.2 hk')⟩

/-- One delivery either does all it should, or binds references and writes nothing. -/
theorem deliver_cases (h : s.WellFormed) (hst : s.store? i = some st) (hf : Fetches i want s)
    (ho : Owed i want (d :: pending) s) :
    (∃ pending' t, deliver i d pending s = .ok pending' t ∧ Transfer (· = i) want s t ∧
      Owed i want pending' t ∧ s.Sound d.object) ∨
    (∃ e t, deliver i d pending s = .error e t ∧ Transfer (· = i) nothing s t ∧
      (e = .store (.table .full) ∨ e = .store .device ∧ st.output.device = .full ∨ ¬ s.Sound d.object)) := by
  rcases bindAll_cases h hst hf ho with ⟨p, t, hok, ht, ho', hb⟩ | ⟨e, t, he, ht, hc⟩
  · obtain ⟨q, hq, hw⟩ := ho'.due d List.mem_cons_self
    obtain ⟨st', hst', hd⟩ := ht.isOpen hst
    have hknown : ∀ r ∈ d.object.references, s.bindings.Knows r := by
      intro r hr
      obtain ⟨id, hid⟩ := Option.isSome_iff_exists.1 (hb r hr)
      exact ht.knows.1 (Bindings.known_of_view hid)
    rcases put_cases ht.wellFormed hst' hq hb with ⟨c, u, hput, hc, hs⟩ | ⟨e, he, hbytes⟩ | ⟨he, hfull⟩
    · refine Or.inl ⟨p, u, ?_, ?_, ho'.put ht.wellFormed hq hw hs, Object.finite_of_toBytes hc, hknown⟩
      · rw [deliver, Operation.bind_of_ok hok, Operation.bind_of_ok hput]
        rfl
      · exact ht.of_nothing.trans (hs.transfer_put rfl hq hw hb hc)
    · refine Or.inr ⟨.store (.object e), t, ?_, ht, Or.inr (Or.inr fun hsound => ?_)⟩
      · rw [deliver, Operation.bind_of_ok hok]
        exact Operation.bind_of_error he
      · obtain ⟨b, hb'⟩ := Object.toBytes_of_finite hsound.1 hb
        rw [hbytes] at hb'
        cases hb'
    · refine Or.inr ⟨_, t, ?_, ht, Or.inr (Or.inl ⟨rfl, hd ▸ hfull⟩)⟩
      rw [deliver, Operation.bind_of_ok hok]
      exact Operation.bind_of_error he
  · refine Or.inr ⟨e, t, Operation.bind_of_error he, ht, hc.imp_right fun ⟨r, hr, hk⟩ => Or.inr ?_⟩
    exact fun hsound => hk (hsound.2 r hr)

/-! ## The whole transfer -/

theorem drain_ok {pending' : List Delivery} (h : deliver i d pending s = .ok pending' t) :
    drain i (d :: pending) s = drain i pending' t := by
  rw [drain]
  split <;> simp_all

theorem drain_error {e : SessionError} (h : deliver i d pending s = .error e t) :
    drain i (d :: pending) s = .error e t := by
  rw [drain]
  split <;> simp_all

theorem drain_cases (h : s.WellFormed) (hst : s.store? i = some st) (hf : Fetches i want s)
    (ho : Owed i want pending s) (hsound : ∀ q o, want i q = some o → s.Sound o) :
    (∃ t, drain i pending s = .ok () t ∧ Transfer (· = i) want s t ∧ Owed i want [] t) ∨
    (∃ e t, drain i pending s = .error e t ∧ Transfer (· = i) want s t ∧
      (e = .store (.table .full) ∨ e = .store .device ∧ st.output.device = .full)) := by
  induction pending, s using drain.induct i generalizing st with
  | case1 s => exact Or.inl ⟨s, by rw [drain], .refl h, ho⟩
  | case2 s d rest pending' t hok ih =>
      rcases deliver_cases h hst hf ho with ⟨p, u, hok', ht, ho', -⟩ | ⟨e, u, he, -, -⟩
      · rw [hok] at hok'
        cases hok'
        obtain ⟨st', hst', hd⟩ := ht.isOpen hst
        have hsound' : ∀ q o, want i q = some o → t.Sound o := fun q o hq => ht.sound (hsound q o hq)
        rw [drain_ok hok, ← hd]
        rcases ih ht.wellFormed hst' (hf.transfer h ht) ho' hsound' with ⟨u, hd', ht', ho''⟩ | ⟨e, u, he, ht', hc⟩
        · exact Or.inl ⟨u, hd', ht.trans ht', ho''⟩
        · exact Or.inr ⟨e, u, he, ht.trans ht', hc⟩
      · rw [hok] at he
        cases he
  | case3 s d rest e t he =>
      rcases deliver_cases h hst hf ho with ⟨p, u, hok, -⟩ | ⟨e', u, he', ht, hc⟩
      · rw [he] at hok
        cases hok
      · rw [he] at he'
        cases he'
        obtain ⟨q, -, hw⟩ := ho.due d List.mem_cons_self
        refine Or.inr ⟨e, t, drain_error he, ht.of_nothing, hc.imp_right fun hc => ?_⟩
        exact hc.resolve_right fun hn => hn (hsound q d.object hw)

/-- A transfer that begins with an object that cannot be written breaks off before anything is written. -/
theorem drain_unsound (h : s.WellFormed) (hst : s.store? i = some st) (hf : Fetches i want s)
    (ho : Owed i want (d :: pending) s) (hd : ¬ s.Sound d.object) :
    ∃ e t, drain i (d :: pending) s = .error e t ∧ Transfer (· = i) nothing s t := by
  rcases deliver_cases h hst hf ho with ⟨-, -, -, -, -, hs⟩ | ⟨e, t, he, ht, -⟩
  · exact absurd hs hd
  · exact ⟨e, t, drain_error he, ht⟩

end PdfStore.Session
