import PdfStore.Proofs.Removals

/-!
# Writing to all stores

A new reference is bound to stores one after the other, and an object is written to the stores of its
reference one after the other. What each step keeps (`P`) holds when the last step is done, and also where
a step breaks off.
-/

namespace PdfStore.Session

variable {s t u : Session} {i j : StoreId} {r q : Reference} {id : ObjectId} {o : Object}

/-! ## Binding a new reference -/

theorem bindEach_cases {P : Session → Prop} {places : List StoreId}
    (hP : ∀ {i s t}, s.WellFormed → P s → Transfer (· = i) s.fetching s t → Settled (· = i) s.fetching t → P t)
    (h : s.WellFormed) (hs : P s) (hopen : ∀ i ∈ places, (s.store? i).isSome) (hk : s.bindings.Knows r) :
    let x : Operation SessionError Session Unit := places.forM fun i => do
      let _ ← identityFor r i
    (∃ t, x s = .ok () t ∧ t.WellFormed ∧ P t) ∨
    (∃ e u i t, x s = .error e t ∧ u.WellFormed ∧ P u ∧ Transfer (· = i) u.fetching u t ∧ u.Full i e) := by
  induction places generalizing s with
  | nil => exact Or.inl ⟨s, rfl, h, hs⟩
  | cons i rest ih =>
      obtain ⟨st, hst⟩ := Option.isSome_iff_exists.1 (hopen i List.mem_cons_self)
      rcases identityFor_open h hst hk with ⟨id, t, hok, ht, hset, -⟩ | ⟨e, t, he, ht, hf⟩
      · have hopen' : ∀ j ∈ rest, (t.store? j).isSome := by
          intro j hj
          obtain ⟨st, hst⟩ := Option.isSome_iff_exists.1 (hopen j (List.mem_cons_of_mem _ hj))
          obtain ⟨st', hst', -⟩ := ht.isOpen hst
          rw [hst']
          rfl
        rcases ih ht.wellFormed (hP h hs ht hset) hopen' (ht.knows.2 hk) with ⟨u, hok', hu⟩ | ⟨e, v, j, u, he, hu⟩
        · exact Or.inl ⟨u, Eq.trans (Operation.forM_cons_ok (Operation.bind_of_ok hok)) hok', hu⟩
        · exact Or.inr ⟨e, v, j, u, Eq.trans (Operation.forM_cons_ok (Operation.bind_of_ok hok)) he, hu⟩
      · exact Or.inr ⟨e, s, i, t, Operation.forM_cons_error (Operation.bind_of_error he), h, hs, ht, hf⟩

theorem look_each (places : List StoreId) (s : Session) :
    let x : Operation SessionError Session Unit := places.forM fun i => do
      let _ ← look (·.store i)
    (x s = .ok () s ∧ ∀ i ∈ places, (s.store? i).isSome) ∨ ∃ e, x s = .error e s := by
  induction places with
  | nil => exact Or.inl ⟨rfl, by simp⟩
  | cons i rest ih =>
      cases hst : s.store? i with
      | some st =>
          have hlook : look (·.store i) s = .ok st s := look_of_ok (by simp only [store, hst])
          rcases ih with ⟨hok, hopen⟩ | ⟨e, he⟩
          · refine Or.inl ⟨Eq.trans (Operation.forM_cons_ok (Operation.bind_of_ok hlook)) hok, ?_⟩
            exact List.forall_mem_cons.2 ⟨by rw [hst]; rfl, hopen⟩
          · exact Or.inr ⟨e, Eq.trans (Operation.forM_cons_ok (Operation.bind_of_ok hlook)) he⟩
      | none =>
          have hlook : look (·.store i) s = .error (.storeClosed i) s := look_of_error (by simp only [store, hst])
          exact Or.inr ⟨_, Operation.forM_cons_error (Operation.bind_of_error hlook)⟩

/-- A new reference is given out with all its bindings, or nothing happens, or a store has no room. -/
theorem newReferenceIn_cases {P : Session → Prop}
    (hP : ∀ {i s t}, s.WellFormed → P s → Transfer (· = i) s.fetching s t → Settled (· = i) s.fetching t → P t)
    (h : s.WellFormed) (hs : ∀ {t}, Extends none s t → P t) (places : List StoreId) :
    (∃ t, newReferenceIn places s = .ok ⟨s.bindings.entries.length⟩ t ∧ t.WellFormed ∧ P t) ∨
    (∃ e, newReferenceIn places s = .error e s) ∨
    (∃ e u i t, newReferenceIn places s = .error e t ∧ u.WellFormed ∧ P u ∧
      Transfer (· = i) u.fetching u t ∧ u.Full i e) := by
  rcases look_each places s with ⟨hlook, hopen⟩ | ⟨e, he⟩
  · rcases newReference_cases h with ⟨t, hnew, hext⟩ | hfull
    · have hopen' : ∀ i ∈ places, (t.store? i).isSome := fun i hi => by
        rw [(newReference_ok hnew).2]
        exact hopen i hi
      rcases bindEach_cases hP hext.wellFormed (hs hext) hopen' (unbound_of_newReference hnew).1 with
        ⟨u, hok, hu⟩ | ⟨e, v, j, u, he, hu⟩
      · exact Or.inl ⟨u, (Operation.bind_of_ok hlook).trans ((Operation.bind_of_ok hnew).trans
          (Operation.bind_of_ok hok)), hu⟩
      · exact Or.inr (Or.inr ⟨e, v, j, u, (Operation.bind_of_ok hlook).trans ((Operation.bind_of_ok hnew).trans
          (Operation.bind_of_error he)), hu⟩)
    · exact Or.inr (Or.inl ⟨_, (Operation.bind_of_ok hlook).trans (Operation.bind_of_error hfull)⟩)
  · exact Or.inr (Or.inl ⟨e, Operation.bind_of_error he⟩)

theorem newReferenceIn_one (h : s.WellFormed) (i : StoreId) :
    (∃ id t u, newReference s = .ok ⟨s.bindings.entries.length⟩ t ∧
      bindInto i ⟨s.bindings.entries.length⟩ t = .ok (id, []) u ∧
      newReferenceIn [i] s = .ok ⟨s.bindings.entries.length⟩ u) ∨
    ((s.store? i = none ∨ maxHandles ≤ s.bindings.entries.length) ∧ ∃ e, newReferenceIn [i] s = .error e s) ∨
    (∃ t, newReference s = .ok ⟨s.bindings.entries.length⟩ t ∧
      newReferenceIn [i] s = .error (.store (.table .full)) t) := by
  cases hst : s.store? i with
  | none =>
      have hlook : look (·.store i) s = .error (.storeClosed i) s := look_of_error (by simp only [store, hst])
      refine Or.inr (Or.inl ⟨Or.inl rfl, .storeClosed i, Operation.bind_of_error ?_⟩)
      exact Operation.forM_cons_error (Operation.bind_of_error hlook)
  | some st =>
      have hlook : look (·.store i) s = .ok st s := look_of_ok (by simp only [store, hst])
      have heach := Operation.forM_cons_ok (f := fun i => do let _ ← look (·.store i)) (l := [])
        (Operation.bind_of_ok hlook)
      rcases newReference_cases h with ⟨t, hnew, hext⟩ | hfull
      · obtain ⟨hk, hview, horigin⟩ := unbound_of_newReference hnew
        have hst' : t.store? i = some st := by
          rw [(newReference_ok hnew).2]
          exact hst
        rcases identityFor_fresh hext.wellFormed hst' hk (hview i) horigin with ⟨id, u, hok, hbind⟩ | hfull
        · refine Or.inl ⟨id, t, u, hnew, hbind, ?_⟩
          exact (Operation.bind_of_ok heach).trans ((Operation.bind_of_ok hnew).trans
            (Operation.bind_of_ok (Operation.forM_cons_ok (Operation.bind_of_ok hok))))
        · refine Or.inr (Or.inr ⟨t, hnew, ?_⟩)
          exact (Operation.bind_of_ok heach).trans ((Operation.bind_of_ok hnew).trans
            (Operation.bind_of_error (Operation.forM_cons_error (Operation.bind_of_error hfull))))
      · have hge : maxHandles ≤ s.bindings.entries.length := by
          by_contra hlt
          have hok := onBindings_ok (Bindings.create_ok (Nat.lt_of_not_le hlt))
          rw [newReference, hok] at hfull
          cases hfull
        exact Or.inr (Or.inl ⟨Or.inr hge, _, (Operation.bind_of_ok heach).trans (Operation.bind_of_error hfull)⟩)

/-! ## Writing an object -/

/-- A reference that is written is bound to no other store by that. -/
theorem bound_of_rewriting (ht : Transfer (· = i) (s.rewriting r o) s t)
    (hi : s.place i r ≠ .absent) (hp : t.place j r ≠ .absent) : s.place j r ≠ .absent := by
  rcases ht.place j r with heq | ⟨rfl, -⟩ | ⟨rfl, -⟩
  · rwa [heq] at hp
  · exact hi
  · exact hi

theorem written_of_rewriting {b : Bytes} (ht : Transfer (· = i) (s.rewriting r o) s t)
    (hp : s.place j r = .written o b) : ∃ b, t.place j r = .written o b := by
  rcases ht.place j r with heq | ⟨-, o', b', hw, hp'⟩ | ⟨-, ha, -⟩
  · exact ⟨b, heq.trans hp⟩
  · rw [rewriting_self] at hw
    cases hw
    exact ⟨b', hp'⟩
  · rw [hp] at ha
    cases ha

/-- What holds of a session while a reference is written: some stores have the object already. -/
structure Halfway (P : Session → Prop) (r : Reference) (o : Object) (s t : Session) : Prop where
  wellFormed : t.WellFormed
  keeps : P t
  source : ∀ q, t.bindings.source q = s.bindings.source q
  view : ∀ {j q id}, s.bindings.view j q = some id → t.bindings.view j q = some id
  bound : ∀ {j}, t.place j r ≠ .absent → s.place j r ≠ .absent
  written : ∀ {j b}, s.place j r = .written o b → ∃ b, t.place j r = .written o b

theorem Halfway.trans {P : Session → Prop} (h : Halfway P r o s t) (h' : Halfway P r o t u) :
    Halfway P r o s u where
  wellFormed := h'.wellFormed
  keeps := h'.keeps
  source := fun q => (h'.source q).trans (h.source q)
  view := fun hv => h'.view (h.view hv)
  bound := fun hp => h.bound (h'.bound hp)
  written := fun hp => by
    obtain ⟨b, hb⟩ := h.written hp
    exact h'.written hb

theorem writeEach_cases {P : Session → Prop} {l : List (StoreId × ObjectId)}
    (hP : ∀ {i s t}, s.WellFormed → P s → s.place i r ≠ .absent →
      Transfer (· = i) (s.rewriting r o) s t → Settled (· = i) (s.rewriting r o) t → P t)
    (h : s.WellFormed) (hs : P s) (ho : s.Sound o) (hl : ∀ e ∈ l, s.bindings.view e.1 r = some e.2) :
    let x : Operation SessionError Session Unit := l.forM fun (i, id) => drain i [⟨id, o⟩]
    (∃ t, x s = .ok () t ∧ Halfway P r o s t ∧ ∀ e ∈ l, ∃ b, t.place e.1 r = .written o b) ∨
    (∃ e u i t, x s = .error e t ∧ u.WellFormed ∧ P u ∧ Transfer (· = i) (u.rewriting r o) u t ∧ u.Full i e) := by
  induction l generalizing s with
  | nil =>
      exact Or.inl ⟨s, rfl, ⟨h, hs, fun _ => rfl, fun h => h, fun h => h, fun h => ⟨_, h⟩⟩, by simp⟩
  | cons e rest ih =>
      obtain ⟨i, id⟩ := e
      have hv : s.bindings.view i r = some id := hl (i, id) List.mem_cons_self
      rcases drain_write_cases h hv ho with ⟨t, hok, ht, hset⟩ | ⟨e, t, he, ht, hf⟩
      · have hhalf : Halfway P r o s t := ⟨ht.wellFormed, hP h hs (h.bound hv) ht hset, ht.source, ht.view,
          bound_of_rewriting ht (h.bound hv), written_of_rewriting ht⟩
        have hwritten : ∃ b, t.place i r = .written o b :=
          hset rfl (ht.wellFormed.bound (ht.view hv)) rewriting_self
        have hl' : ∀ e ∈ rest, t.bindings.view e.1 r = some e.2 := fun e he =>
          ht.view (hl e (List.mem_cons_of_mem _ he))
        rcases ih ht.wellFormed hhalf.keeps (ht.sound ho) hl' with ⟨u, hok', hhalf', hall⟩ | ⟨e, v, j, u, he, hu⟩
        · refine Or.inl ⟨u, Eq.trans (Operation.forM_cons_ok hok) hok', hhalf.trans hhalf', fun e he => ?_⟩
          rcases List.mem_cons.1 he with rfl | he
          · obtain ⟨b, hb⟩ := hwritten
            exact hhalf'.written hb
          · exact hall e he
        · exact Or.inr ⟨e, v, j, u, Eq.trans (Operation.forM_cons_ok hok) he, hu⟩
      · exact Or.inr ⟨e, s, i, t, Operation.forM_cons_error he, h, hs, ht, hf⟩

/-- The last part of a write: a reference without a source has the first store written. -/
theorem setFirst_spec (h : s.WellFormed) (hp : ∃ o b, s.place i r = .written o b) :
    ∃ t, (do
        let b ← look (·.binding r)
        if b.source.isNone then onBindings (Bindings.setSource r (some i)) :
          Operation SessionError Session Unit) s = .ok () t ∧ Moves s t ∧ t.Sourced r := by
  obtain ⟨o, c, hp⟩ := hp
  have hne : s.place i r ≠ .absent := by simp [hp]
  obtain ⟨id, hv⟩ := view_of_place hne
  have hk := Bindings.known_of_view hv
  obtain ⟨b, hb, hget⟩ := Bindings.get_known hk
  have hsource := Bindings.source_of_entry hb
  rw [Operation.bind_of_ok (look_of_ok hget)]
  cases hs : b.source with
  | some j =>
      refine ⟨s, by simp, .refl h, fun hn => ?_⟩
      rw [hsource, hs] at hn
      cases hn
  | none =>
      have hplace : ∀ j, some i = some j → ∃ o b, s.place j r = .written o b := by
        rintro j ⟨⟩
        exact ⟨o, c, hp⟩
      obtain ⟨hm, hr⟩ := moves_of_source h hk rfl hplace (by simp)
      exact ⟨_, onBindings_ok (Bindings.setSource_known hk (some i)), hm, hr⟩

/-- An object that can be written reaches every store of its reference, unless a store has no room. -/
theorem write_sound {P : Session → Prop} {b : Binding} {first : StoreId} {rest : List (StoreId × ObjectId)}
    (hP : ∀ {i s t}, s.WellFormed → P s → s.place i r ≠ .absent →
      Transfer (· = i) (s.rewriting r o) s t → Settled (· = i) (s.rewriting r o) t → P t)
    (h : s.WellFormed) (hs : P s) (ho : s.Sound o) (hb : s.bindings.entries[r.index]? = some b)
    (hl : b.identities.entries = (first, id) :: rest) :
    (∃ t u, write r o s = .ok () u ∧ Halfway P r o s t ∧ Moves t u ∧ u.Sourced r ∧
      (∃ i, u.place i r ≠ .absent) ∧ ∀ i, u.place i r ≠ .absent → ∃ b, u.place i r = .written o b) ∨
    (∃ e u i t, write r o s = .error e t ∧ u.WellFormed ∧ P u ∧ Transfer (· = i) (u.rewriting r o) u t ∧
      u.Full i e) := by
  have hlook : look (·.binding r) s = .ok b s := look_of_ok (by rw [binding, Bindings.get, hb])
  have hmem : ∀ {i id}, (i, id) ∈ b.identities.entries ↔ s.bindings.view i r = some id := mem_identities h hb
  rw [write, Operation.bind_of_ok hlook]
  simp only [hl] at hmem ⊢
  rcases writeEach_cases hP h hs ho fun e he => hmem.1 he with ⟨t, hok, hhalf, hall⟩ | ⟨e, v, j, t, he, hu⟩
  · obtain ⟨c, hc⟩ := hall _ List.mem_cons_self
    obtain ⟨u, hlast, hm, hr⟩ := setFirst_spec hhalf.wellFormed ⟨o, c, hc⟩
    refine Or.inl ⟨t, u, Eq.trans (Operation.bind_of_ok hok) hlast, hhalf, hm, hr, ⟨first, ?_⟩, fun i hp => ?_⟩
    · rw [hm.place_eq, hc]
      simp
    · rw [hm.place_eq] at hp ⊢
      obtain ⟨id', hv⟩ := view_of_place (hhalf.bound hp)
      exact hall _ (hmem.2 hv)
  · exact Or.inr ⟨e, v, j, t, Operation.bind_of_error he, hu⟩

/-- A write either reaches every store of the reference, or fails: before anything happens, where a store has
no room, or at the first store because the object cannot be written. -/
theorem write_cases {P : Session → Prop}
    (hP : ∀ {i s t}, s.WellFormed → P s → s.place i r ≠ .absent →
      Transfer (· = i) (s.rewriting r o) s t → Settled (· = i) (s.rewriting r o) t → P t)
    (h : s.WellFormed) (hs : P s) :
    (∃ t u, write r o s = .ok () u ∧ Halfway P r o s t ∧ Moves t u ∧ u.Sourced r ∧
      (∃ i, u.place i r ≠ .absent) ∧ ∀ i, u.place i r ≠ .absent → ∃ b, u.place i r = .written o b) ∨
    (∃ e, write r o s = .error e s) ∨
    (∃ e u i t, write r o s = .error e t ∧ u.WellFormed ∧ P u ∧ Transfer (· = i) (u.rewriting r o) u t ∧
      u.Full i e) ∨
    (∃ e i t, write r o s = .error e t ∧ Transfer (· = i) nothing s t) := by
  by_cases hk : s.bindings.Knows r
  · obtain ⟨b, hb, hget⟩ := Bindings.get_known hk
    have hlook : look (·.binding r) s = .ok b s := look_of_ok hget
    have hmem : ∀ {i id}, (i, id) ∈ b.identities.entries ↔ s.bindings.view i r = some id := mem_identities h hb
    cases hl : b.identities.entries with
    | nil =>
        refine Or.inr (Or.inl ⟨.unboundReference r, ?_⟩)
        rw [write, Operation.bind_of_ok hlook]
        simp only [hl]
        rfl
    | cons head rest =>
        obtain ⟨first, id⟩ := head
        rw [hl] at hmem
        have hfirst : s.bindings.view first r = some id := hmem.1 List.mem_cons_self
        by_cases ho : s.Sound o
        · exact (write_sound hP h hs ho hb hl).imp_right fun hu => Or.inr (Or.inl hu)
        · obtain ⟨e, t, he, ht⟩ := drain_write_unsound h hfirst ho
          refine Or.inr (Or.inr (Or.inr ⟨e, first, t, ?_, ht⟩))
          rw [write, Operation.bind_of_ok hlook]
          simp only [hl]
          exact Operation.bind_of_error (Operation.forM_cons_error he)
  · exact Or.inr (Or.inl ⟨_, Operation.bind_of_error (look_of_error (Bindings.get_unknown hk))⟩)

end PdfStore.Session
