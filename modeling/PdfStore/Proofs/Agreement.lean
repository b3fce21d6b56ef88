import PdfStore.Proofs.SessionRuns

/-!
# Stores agree

While no table is full and every write succeeds, all stores in memory that a reference is bound to hold the
object of its last write, and a reference has a source exactly when there is one. So a session in use is a
map from references to objects.
-/

namespace PdfStore.Session

variable {s t u : Session} {i j : StoreId} {r q : Reference} {o : Object}
variable {scope : StoreId → Prop} {want : StoreId → Reference → Option Object}
variable {p : Reference → Prop} {A : Reference → Option Object}

/-! ## The invariant -/

/-- The references that satisfy `p` have these objects wherever they are bound. -/
structure AgreesOn (p : Reference → Prop) (A : Reference → Option Object) (s : Session) : Prop where
  place : ∀ {i q}, p q → s.place i q ≠ .absent → (s.place i q).object? = A q
  source : ∀ {q}, p q → ((s.bindings.source q).isSome ↔ (A q).isSome)

def InMemory (s : Session) : Prop := ∀ i st, s.store? i = some st → st.output.device = .memory

/-- No reference has lost an identity. -/
def Grows (s t : Session) : Prop := ∀ j q, s.place j q ≠ .absent → t.place j q ≠ .absent

/-- A reference that finds a source where there is one has a source exactly when it has an object. -/
theorem source_iff {a : Option Object} (h : s.WellFormed) (hs : s.Sourced q)
    (hp : ∀ i, s.place i q ≠ .absent → (s.place i q).object? = a)
    (ha : a.isSome → ∃ i, s.place i q ≠ .absent) : (s.bindings.source q).isSome ↔ a.isSome := by
  constructor
  · intro hsome
    obtain ⟨i, hi⟩ := Option.isSome_iff_exists.1 hsome
    obtain ⟨o, b, hpl⟩ := h.source hi
    have hne : s.place i q ≠ .absent := by simp [hpl]
    rw [← hp i hne, hpl]
    rfl
  · intro hsome
    obtain ⟨i, hne⟩ := ha hsome
    cases hq : s.bindings.source q with
    | some j => rfl
    | none =>
        have hobj := hp i hne
        cases hpl : s.place i q with
        | absent => exact absurd hpl hne
        | pending =>
            rw [← hobj, hpl] at hsome
            cases hsome
        | written o b => exact absurd hpl (hs hq i o b)

namespace AgreesOn

theorem bound (ha : AgreesOn p A s) (h : s.WellFormed) (hq : p q) (hsome : (A q).isSome) :
    ∃ i, s.place i q ≠ .absent := by
  obtain ⟨i, hi⟩ := Option.isSome_iff_exists.1 ((ha.source hq).2 hsome)
  obtain ⟨o, b, hp⟩ := h.source hi
  exact ⟨i, by rw [hp]; simp⟩

theorem origin_eq (ha : AgreesOn p A s) (h : s.WellFormed) (hq : p q) : s.origin q = A q := by
  cases ho : s.origin q with
  | some o =>
      obtain ⟨i, b, -, hp⟩ := origin_eq_some ho
      have := ha.place hq (by rw [hp]; simp : s.place i q ≠ .absent)
      rw [← this, hp]
      rfl
  | none =>
      cases hA : A q with
      | none => rfl
      | some o =>
          have hsome : (A q).isSome := by rw [hA]; rfl
          obtain ⟨i, hi⟩ := Option.isSome_iff_exists.1 ((ha.source hq).2 hsome)
          obtain ⟨o', b, hp⟩ := h.source hi
          rw [origin_of_source hi hp] at ho
          cases ho

/-- A transfer keeps the agreement of the references that take along what they have. -/
theorem transfer (ha : AgreesOn p A s) (h : s.WellFormed) (ht : Transfer scope want s t)
    (hset : Settled scope want t) (hw : ∀ i q, p q → want i q = s.fetching i q) : AgreesOn p A t where
  place := fun {i q} hq hp => by
    rcases ht.place i q with heq | ⟨-, o, b, ho, hp'⟩ | ⟨hi, habs, hp'⟩
    · rw [heq] at hp ⊢
      exact ha.place hq hp
    · rw [hw i q hq] at ho
      rw [hp', ← ha.origin_eq h hq, (origin_of_fetching ho).2]
      rfl
    · -- Newly bound and not written: nothing was to be taken along.
      have hn : s.bindings.view i q = none := h.place_eq_absent.1 habs
      rw [hp', ← ha.origin_eq h hq]
      cases ho : s.origin q with
      | none => rfl
      | some o =>
          have hwant : want i q = some o := (hw i q hq).trans ((fetching_unbound hn).trans ho)
          obtain ⟨b, hb⟩ := hset hi hp hwant
          rw [hp'] at hb
          cases hb
  source := fun hq => by
    rw [ht.source]
    exact ha.source hq

theorem moves (ha : AgreesOn p A s) (h : s.WellFormed) (hm : Moves s t) : AgreesOn p A t := by
  have hplace : ∀ {i q}, p q → t.place i q ≠ .absent → (t.place i q).object? = A q := by
    intro i q hq hp
    rw [hm.place_eq] at hp ⊢
    exact ha.place hq hp
  refine ⟨hplace, fun {q} hq => ?_⟩
  rcases hm.source q with heq | hs
  · rw [heq]
    exact ha.source hq
  · refine source_iff hm.wellFormed hs (fun i hp => hplace hq hp) fun hsome => ?_
    obtain ⟨i, hne⟩ := ha.bound h hq hsome
    exact ⟨i, by rwa [hm.place_eq]⟩

theorem of_extends (ha : AgreesOn p A s) {new : Option Store} (he : Extends new s t) : AgreesOn p A t where
  place := fun hq hp => by
    rw [he.place] at hp ⊢
    exact ha.place hq hp
  source := fun hq => by
    rw [he.source]
    exact ha.source hq

/-- References that lose their last binding have no object any more. -/
theorem drops {lost : StoreId → Reference → Prop} (ha : AgreesOn (fun _ => True) A s) (h : s.WellFormed)
    (hd : Drops lost s t) : AgreesOn (fun _ => True)
      (fun q => if s.bindings.isBound q && !t.bindings.isBound q then none else A q) t := by
  have hkept : ∀ {i q}, t.place i q ≠ .absent →
      (if s.bindings.isBound q && !t.bindings.isBound q then none else A q) = A q := by
    intro i q hp
    rw [(isBound_iff hd.wellFormed).2 ⟨i, hp⟩]
    simp
  have hbound : ∀ {q}, (if s.bindings.isBound q && !t.bindings.isBound q then none else A q).isSome →
      ∃ i, t.place i q ≠ .absent := by
    intro q hsome
    rw [← isBound_iff hd.wellFormed]
    split at hsome
    · cases hsome
    · rename_i hne
      have hs := (isBound_iff h).2 (ha.bound h trivial hsome)
      simpa [hs] using hne
  have hplace : ∀ {i q}, t.place i q ≠ .absent → (t.place i q).object? =
      if s.bindings.isBound q && !t.bindings.isBound q then none else A q := by
    intro i q hp
    have hl : ¬ lost i q := fun hl => hp (hd.place_lost hl)
    rw [hkept hp]
    rw [hd.place hl] at hp ⊢
    exact ha.place trivial hp
  refine ⟨fun _ hp => hplace hp, fun {q} _ => ?_⟩
  rcases hd.source q with heq | hs
  · constructor
    · intro hsome
      obtain ⟨i, hi⟩ := Option.isSome_iff_exists.1 hsome
      obtain ⟨o, b, hp⟩ := hd.wellFormed.source hi
      have hne : t.place i q ≠ .absent := by simp [hp]
      rw [hkept hne]
      exact (ha.source trivial).1 (heq ▸ hsome)
    · intro hsome
      obtain ⟨i, hne⟩ := hbound hsome
      rw [hkept hne] at hsome
      rw [heq]
      exact (ha.source trivial).2 hsome
  · exact source_iff hd.wellFormed hs (fun i hp => hplace hp) hbound

end AgreesOn

/-! ## Sessions in memory -/

theorem full_of_inMemory {e : SessionError} (hm : s.InMemory) (hf : s.Full i e) : e = .store (.table .full) := by
  rcases hf with he | ⟨-, st, hst, hd⟩
  · exact he
  · rw [hm i st hst] at hd
    cases hd

theorem InMemory.transfer (hm : s.InMemory) (ht : Transfer scope want s t) : t.InMemory := by
  intro j st hst
  have hd := ht.device j
  rw [hst, Option.map_some] at hd
  obtain ⟨st₀, hst₀, heq⟩ := Option.map_eq_some_iff.1 hd.symm
  rw [← heq]
  exact hm _ _ hst₀

theorem InMemory.moves (hm : s.InMemory) (h : Moves s t) : t.InMemory := by
  intro j st hst
  exact hm j st ((h.store?_eq j).symm.trans hst)

theorem InMemory.of_extends {new : Option Store} (hm : s.InMemory) (he : Extends new s t)
    (hn : ∀ st, new = some st → st.output.device = .memory) : t.InMemory := by
  intro j st hst
  rcases he.store hst with h | ⟨-, h⟩
  · exact hm j st h
  · exact hn st h

theorem InMemory.drops {lost : StoreId → Reference → Prop} (hm : s.InMemory) (hd : Drops lost s t) :
    t.InMemory := by
  intro j st hst
  obtain ⟨st₀, hst₀, heq⟩ := hd.store hst
  rw [heq]
  exact hm _ _ hst₀

theorem Grows.refl : Grows s s := fun _ _ h => h

theorem Grows.trans (h : Grows s t) (h' : Grows t u) : Grows s u := fun j q hp => h' j q (h j q hp)

theorem Grows.of_view (ht : t.WellFormed)
    (hv : ∀ {j q id}, s.bindings.view j q = some id → t.bindings.view j q = some id) : Grows s t := by
  intro j q hp
  obtain ⟨id, hid⟩ := view_of_place hp
  exact ht.bound (hv hid)

theorem Grows.isBound (hg : Grows s t) (h : s.WellFormed) (ht : t.WellFormed)
    (hb : s.bindings.isBound q = true) : t.bindings.isBound q = true := by
  obtain ⟨j, hj⟩ := (isBound_iff h).1 hb
  exact (isBound_iff ht).2 ⟨j, hg j q hj⟩

/-- The invariant of a session as a map: its stores are in memory and agree on all references. -/
structure Maps (A : Reference → Option Object) (s : Session) : Prop where
  wellFormed : s.WellFormed
  memory : s.InMemory
  agrees : AgreesOn (fun _ => True) A s

/-- A session that is the same map as before, and binds at least the same references. -/
structure Stays (A : Reference → Option Object) (s t : Session) : Prop where
  maps : Maps A t
  grows : Grows s t

theorem Maps.stays (h : Maps A s) : Stays A s s := ⟨h, .refl⟩

theorem Stays.trans (h : Stays A s t) (h' : Stays A t u) : Stays A s u := ⟨h'.maps, h.grows.trans h'.grows⟩

theorem Stays.fetch (h : Stays A s t) (ht : Transfer scope t.fetching t u) (hset : Settled scope t.fetching u) :
    Stays A s u where
  maps := ⟨ht.wellFormed, h.maps.memory.transfer ht,
    h.maps.agrees.transfer h.maps.wellFormed ht hset fun _ _ _ => rfl⟩
  grows := h.grows.trans (.of_view ht.wellFormed ht.view)

theorem Maps.of_extends {new : Option Store} (h : Maps A s) (he : Extends new s t)
    (hn : ∀ st, new = some st → st.output.device = .memory) : Stays A s t where
  maps := ⟨he.wellFormed, h.memory.of_extends he hn, h.agrees.of_extends he⟩
  grows := .of_view he.wellFormed fun hv => (he.view _ _).trans hv

/-! ## The operations -/

theorem Maps.drops {lost : StoreId → Reference → Prop} (h : Maps A s) (hd : Drops lost s t) :
    Maps (fun q => if s.bindings.isBound q && !t.bindings.isBound q then none else A q) t :=
  ⟨hd.wellFormed, h.memory.drops hd, h.agrees.drops h.wellFormed hd⟩

/-- A new reference is nowhere written, also where it is bound at once. -/
theorem Maps.newReferenceIn (h : Maps A s) (places : List StoreId) :
    (∃ t, newReferenceIn places s = .ok ⟨s.bindings.entries.length⟩ t ∧ Stays A s t) ∨
      (∃ e t, Session.newReferenceIn places s = .error e t ∧ (Stays A s t ∨ e = .store (.table .full))) := by
  have hnew : ∀ {t}, Extends none s t → Stays A s t := fun he => h.of_extends he (by simp)
  rcases newReferenceIn_cases (fun _ hs ht hset => hs.fetch ht hset) h.wellFormed hnew places with
    ⟨t, hok, -, hs⟩ | ⟨e, he⟩ | ⟨e, u, i, t, he, -, hs, -, hf⟩
  · exact Or.inl ⟨t, hok, hs⟩
  · exact Or.inr ⟨e, s, he, Or.inl h.stays⟩
  · exact Or.inr ⟨e, t, he, Or.inr (full_of_inMemory hs.maps.memory hf)⟩

/-- A write that succeeds gives one reference its object everywhere, and no other reference another one. -/
theorem Maps.write (h : Maps A s) (r : Reference) (o : Object) :
    (∃ t, write r o s = .ok () t ∧ Maps (fun q => if q = r then some o else A q) t ∧ Grows s t) ∨
      ∃ e t, Session.write r o s = .error e t := by
  let P : Session → Prop := fun t => t.InMemory ∧ AgreesOn (· ≠ r) A t
  have hP : ∀ {i s t}, s.WellFormed → P s → s.place i r ≠ .absent →
      Transfer (· = i) (s.rewriting r o) s t → Settled (· = i) (s.rewriting r o) t → P t :=
    fun hwf hs _ ht hset => ⟨hs.1.transfer ht, hs.2.transfer hwf ht hset fun _ _ hq => rewriting_of_ne hq⟩
  have hs : P s := ⟨h.memory, fun _ hp => h.agrees.place trivial hp, fun _ => h.agrees.source trivial⟩
  rcases write_cases hP h.wellFormed hs with
    ⟨t, u, hok, hhalf, hm, hr, hbound, hall⟩ | ⟨e, he⟩ | ⟨e, _, _, t, he, -⟩ | ⟨e, _, t, he, -⟩
  · obtain ⟨hmem, hagrees⟩ := hhalf.keeps
    have hothers := hagrees.moves hhalf.wellFormed hm
    have hself : ∀ i, u.place i r ≠ .absent → (u.place i r).object? = some o := by
      intro i hp
      obtain ⟨b, hb⟩ := hall i hp
      rw [hb]
      rfl
    refine Or.inl ⟨u, hok, ⟨hm.wellFormed, hmem.moves hm, ?_, ?_⟩, ?_⟩
    · intro i q _ hp
      by_cases hq : q = r
      · rw [if_pos hq, hq]
        exact hself i (hq ▸ hp)
      · rw [if_neg hq]
        exact hothers.place hq hp
    · intro q _
      by_cases hq : q = r
      · rw [if_pos hq, hq]
        exact source_iff hm.wellFormed hr hself fun _ => hbound
      · rw [if_neg hq]
        exact hothers.source hq
    · exact .of_view hm.wellFormed fun hv => (hm.view _ _).trans (hhalf.view hv)
  · exact Or.inr ⟨e, s, he⟩
  · exact Or.inr ⟨e, t, he⟩
  · exact Or.inr ⟨e, t, he⟩

/-! ## Runs -/

def Call.inMemory : Call → Bool
  | .openStore st => st.1.output.device = .memory
  | .createStore device _ => device = .memory
  | _ => True

def Call.isWrite : Call → Bool
  | .write _ _ | .writeNew _ _ => true
  | _ => false

/-- An event of a run in memory in which every write succeeds and no table is full. -/
structure Smooth (e : Event Call SessionError Session Answer) : Prop where
  memory : e.call.inMemory
  write : e.call.isWrite → e.outcome.isOk
  room : fills e = false

variable {k : Call} {a : Answer} {e : SessionError} {log : Log}

theorem Smooth.not_error (hk : Smooth (.ofCall perform k s)) (hw : k.isWrite = true)
    (he : perform k s = .error e t) : False := by
  have := hk.write hw
  rw [Event.ofCall, Operation.outcome_error he] at this
  cases this

/-- What a call does to the map. -/
inductive Effect (A : Reference → Option Object) (s t : Session) : Option (Reference × Object) → Prop
  | stays (h : Stays A s t) : Effect A s t none
  | drops {lost : StoreId → Reference → Prop} (h : Drops lost s t) : Effect A s t none
  | writes {r : Reference} {o : Object} (h : Maps (fun q => if q = r then some o else A q) t)
      (hg : Grows s t) : Effect A s t (some (r, o))

theorem effect_ok (hok : perform k s = .ok a t) (h : Effect A s t (written? ⟨s, k, .ok a, t⟩)) :
    Effect A s ((perform k).next s) (written? (.ofCall perform k s)) := by
  rw [Event.ofCall, Operation.outcome_ok hok, Operation.next_ok hok]
  exact h

theorem effect_error (he : perform k s = .error e t) (h : Effect A s t none) :
    Effect A s ((perform k).next s) (written? (.ofCall perform k s)) := by
  rw [Event.ofCall, Operation.outcome_error he, Operation.next_error he]
  have hw : written? ⟨s, k, .error e, t⟩ = none := by cases k <;> rfl
  rw [hw]
  exact h

theorem openStore_effect {st : Store} (h : Maps A s) (hst : st.WellFormed) (hd : st.output.device = .memory) :
    (∃ i t, openStore st s = .ok i t ∧ Effect A s t none) ∨ ∃ e, openStore st s = .error e s := by
  rcases openStore_cases h.wellFormed hst with ⟨t, hok, he, -⟩ | hfull
  · refine Or.inl ⟨_, t, hok, .stays (h.of_extends he ?_)⟩
    rintro _ ⟨⟩
    exact hd
  · exact Or.inr ⟨_, hfull⟩

theorem createStore_effect {device : Device} {config : Config} (h : Maps A s) (hd : device = .memory) :
    (∃ i t, createStore device config s = .ok i t ∧ Effect A s t none) ∨
      ∃ e, createStore device config s = .error e s := by
  cases hst : Store.create device config with
  | error e => exact Or.inr ⟨_, createStore_of_error hst⟩
  | ok st =>
      obtain ⟨hwf, -, hout, -⟩ := Store.create_ok hst
      rw [createStore_of_ok hst]
      exact openStore_effect h hwf (by rw [hout, hd])

theorem writeNew_effect (h : Maps A s) (i : StoreId) (o : Object) :
    (∃ r t, writeNew i o s = .ok r t ∧ Effect A s t (some (r, o))) ∨ ∃ e t, writeNew i o s = .error e t := by
  rcases h.newReferenceIn [i] with ⟨t, hok, hs⟩ | ⟨e, t, he, -⟩
  · rcases hs.maps.write ⟨s.bindings.entries.length⟩ o with ⟨u, hok', hs', hg⟩ | ⟨e, u, he⟩
    · exact Or.inl ⟨_, u, (Operation.bind_of_ok hok).trans (Operation.bind_of_ok hok'),
        .writes hs' (hs.grows.trans hg)⟩
    · exact Or.inr ⟨e, u, (Operation.bind_of_ok hok).trans (Operation.bind_of_error he)⟩
  · exact Or.inr ⟨e, t, Operation.bind_of_error he⟩

theorem named_effect {x : ObjectId → Operation StoreError Store Unit} (h : Maps A s)
    (hx : ∀ {st id}, st.WellFormed → st.standing id ≠ .absent →
      ∃ st', x id st = .ok () st' ∧ st.Becomes id (st.standing id) st') (r : Reference) (i : StoreId) :
    let y : Operation SessionError Session Unit := do
      let id ← identityFor r i
      onStore i (x id)
    (∃ t, y s = .ok () t ∧ Effect A s t none) ∨
      ∃ e t, y s = .error e t ∧ (Effect A s t none ∨ e = .store (.table .full)) := by
  rcases named_cases h.wellFormed hx r i with ⟨t, hok, ht, hset⟩ | ⟨e, he⟩ | ⟨e, t, he, -, hf⟩
  · exact Or.inl ⟨t, hok, .stays (h.stays.fetch ht hset)⟩
  · exact Or.inr ⟨e, s, he, Or.inl (.stays h.stays)⟩
  · exact Or.inr ⟨e, t, he, Or.inr (full_of_inMemory h.memory hf)⟩

/-- The step of a run. -/
theorem perform_effect (h : Maps A s) (k : Call) (hk : Smooth (.ofCall perform k s)) :
    Effect A s ((perform k).next s) (written? (.ofCall perform k s)) := by
  have hwf := h.wellFormed
  cases k with
  | openStore st =>
      rcases openStore_effect h st.2.wellFormed (of_decide_eq_true hk.memory) with ⟨i, t, hok, he⟩ | ⟨e, he⟩
      · exact effect_ok (Operation.bind_of_ok hok) he
      · exact effect_error (Operation.bind_of_error he) (.stays h.stays)
  | createStore device config =>
      rcases createStore_effect h (of_decide_eq_true hk.memory) with ⟨i, t, hok, he⟩ | ⟨e, he⟩
      · exact effect_ok (Operation.bind_of_ok hok) he
      · exact effect_error (Operation.bind_of_error he) (.stays h.stays)
  | newReference =>
      rcases newReference_cases hwf with ⟨t, hok, he⟩ | hfull
      · exact effect_ok (Operation.bind_of_ok hok) (.stays (h.of_extends he (by simp)))
      · exact effect_error (Operation.bind_of_error hfull) (.stays h.stays)
  | newReferenceIn places =>
      rcases h.newReferenceIn places with ⟨t, hok, hs⟩ | ⟨e, t, he, hs | hf⟩
      · exact effect_ok (Operation.bind_of_ok hok) (.stays hs)
      · exact effect_error (Operation.bind_of_error he) (.stays hs)
      · exact absurd hf (not_fills hk.room (Operation.bind_of_error he))
  | identityFor r i =>
      rcases identityFor_cases hwf r i with ⟨id, t, hok, ht, hset, -⟩ | ⟨e, he⟩ | ⟨e, t, he, -, hf⟩
      · exact effect_ok (Operation.bind_of_ok hok) (.stays (h.stays.fetch ht hset))
      · exact effect_error (Operation.bind_of_error he) (.stays h.stays)
      · exact absurd (full_of_inMemory h.memory hf) (not_fills hk.room (Operation.bind_of_error he))
  | write r o =>
      rcases h.write r o with ⟨t, hok, hs, hg⟩ | ⟨e, t, he⟩
      · exact effect_ok (Operation.bind_of_ok hok) (.writes hs hg)
      · exact (hk.not_error rfl (Operation.bind_of_error he)).elim
  | writeNew i o =>
      rcases writeNew_effect h i o with ⟨r, t, hok, he⟩ | ⟨e, t, he⟩
      · exact effect_ok (Operation.bind_of_ok hok) he
      · exact (hk.not_error rfl (Operation.bind_of_error he)).elim
  | setCatalog i r =>
      rcases named_effect h Store.setCatalog_live r i with ⟨t, hok, he⟩ | ⟨e, t, he, hs | hf⟩
      · exact effect_ok (Operation.bind_of_ok hok) he
      · exact effect_error (Operation.bind_of_error he) hs
      · exact absurd hf (not_fills hk.room (Operation.bind_of_error he))
  | setInfo i r =>
      rcases named_effect h Store.setInfo_live r i with ⟨t, hok, he⟩ | ⟨e, t, he, hs | hf⟩
      · exact effect_ok (Operation.bind_of_ok hok) he
      · exact effect_error (Operation.bind_of_error he) hs
      · exact absurd hf (not_fills hk.room (Operation.bind_of_error he))
  | delete r i =>
      rcases delete_cases hwf r i with ⟨out, t, hok, hd⟩ | ⟨e, he⟩
      · exact effect_ok (Operation.bind_of_ok hok) (.drops hd)
      · exact effect_error (Operation.bind_of_error he) (.stays h.stays)
  | close i =>
      rcases close_cases hwf i with ⟨st, t, -, hcl, hd⟩ | ⟨e, he⟩
      · cases hst : st.close with
        | ok report =>
            rw [hst] at hcl
            exact effect_ok (Operation.bind_of_ok hcl) (.drops hd)
        | error e =>
            rw [hst] at hcl
            exact effect_error (Operation.bind_of_error hcl) (.drops hd)
      · exact effect_error (Operation.bind_of_error he) (.stays h.stays)
  | register c =>
      have hok : perform (.register c) s = .ok .done (register c s).2 := rfl
      exact effect_ok hok (.stays (h.of_extends (extends_register hwf c) (by simp)))

theorem current_of_grows {ev : Event Call SessionError Session Answer} (h : ev.before.WellFormed)
    (ht : ev.after.WellFormed) (hg : Grows ev.before ev.after) (q : Reference) : unbinds ev q = false := by
  unfold unbinds
  cases hb : ev.before.bindings.isBound q with
  | false => rfl
  | true => simp [hg.isBound h ht hb]

theorem Effect.maps {ev : Event Call SessionError Session Answer} (h : Maps (current log) ev.before)
    (he : Effect (current log) ev.before ev.after (written? ev)) : Maps (current (ev :: log)) ev.after := by
  generalize hw : written? ev = w at he
  cases he with
  | stays hs =>
      have hsame : current (ev :: log) = current log := by
        funext q
        rw [current, current_of_grows h.wellFormed hs.maps.wellFormed hs.grows, hw]
        rfl
      exact hsame ▸ hs.maps
  | drops hd =>
      have hsame : current (ev :: log) = fun q =>
          if ev.before.bindings.isBound q && !ev.after.bindings.isBound q then none else current log q := by
        funext q
        rw [current, hw, unbinds]
      exact hsame ▸ h.drops hd
  | @writes r o hs hg =>
      have hsame : current (ev :: log) = fun q => if q = r then some o else current log q := by
        funext q
        rw [current, current_of_grows h.wellFormed hs.wellFormed hg, hw]
        rfl
      exact hsame ▸ hs

theorem maps_ofFilters (filters : Registry) : Maps (fun _ => none) (ofFilters filters) where
  wellFormed := wellFormed_ofFilters filters
  memory := fun _ _ hst => by cases hst
  agrees := ⟨fun _ hp => absurd (place_unbound rfl) hp, fun _ => Iff.rfl⟩

theorem maps_run {filters : Registry} (h : Runs perform (ofFilters filters) log s) (hlog : ∀ e ∈ log, Smooth e) :
    Maps (current log) s := by
  induction h with
  | none => exact maps_ofFilters filters
  | call _ k ih =>
      have hm := ih fun e he => hlog e (List.mem_cons_of_mem _ he)
      have hk := hlog _ List.mem_cons_self
      exact (perform_effect hm k hk).maps hm

/-- A session in memory is a map from references to objects: wherever a reference is bound, its object is
found, and it has a source exactly if it has an object. -/
theorem resolve_of_run {filters : Registry} (hrun : Runs perform (ofFilters filters) log s)
    (hlog : ∀ e ∈ log, Smooth e) (r : Reference) :
    (∀ i id, s.bindings.view i r = some id → ∃ st, s.store? i = some st ∧
      st.resolve id = match current log r with
        | some o => .ok o
        | none => .error (.notWritten id)) ∧
      ((s.bindings.source r).isSome ↔ (current log r).isSome) := by
  have h := maps_run hrun hlog
  refine ⟨fun i id hv => ?_, h.agrees.source trivial⟩
  have hbound := h.wellFormed.bound hv
  obtain ⟨st, hst⟩ := store_of_place hbound
  have hplace : s.place i r = st.standing id := place_of_view hst hv
  have hagree : (s.place i r).object? = current log r := h.agrees.place trivial hbound
  refine ⟨st, hst, ?_⟩
  rw [← hagree]
  cases hp : s.place i r with
  | absent => exact absurd hp hbound
  | pending => exact Store.resolve_pending (hplace.symm.trans hp)
  | written o b => exact Store.resolve_written (hplace.symm.trans hp)

theorem Smooth.of_ok {ev : Event Call SessionError Session Answer}
    (h : (ev.call.inMemory && ev.outcome.isOk) = true) : Smooth ev := by
  obtain ⟨hm, hok⟩ := Bool.and_eq_true_iff.1 h
  refine ⟨hm, fun _ => hok, ?_⟩
  cases hout : ev.outcome with
  | ok a => rw [fills, hout]
  | error e =>
      rw [hout] at hok
      cases hok

/-- Two objects that refer to each other come to another store with the first of them, which is then deleted
where it was written. -/
theorem resolve_of_run_after_delete : ∃ log s, Runs perform (ofFilters .standard) log s ∧
    (∀ e ∈ log, Smooth e) ∧ log.map Event.call = [.delete ⟨0⟩ ⟨0⟩, .identityFor ⟨0⟩ ⟨1⟩,
      .write ⟨1⟩ (.array [.indirect ⟨0⟩]), .write ⟨0⟩ (.array [.indirect ⟨1⟩, .null]),
      .newReferenceIn [⟨0⟩], .newReferenceIn [⟨0⟩], .createStore .memory ⟨"1.4", true, 2, 2⟩,
      .createStore .memory ⟨"1.4", true, 2, 2⟩] ∧
    s.bindings.view ⟨1⟩ ⟨0⟩ = some ⟨1, 0⟩ ∧ ∃ o st, current log ⟨0⟩ = some o ∧ o.references = [⟨1⟩] ∧
      s.store? ⟨1⟩ = some st ∧ st.resolve ⟨1, 0⟩ = .ok o := by
  let calls : List Call := [.createStore .memory ⟨"1.4", true, 2, 2⟩, .createStore .memory ⟨"1.4", true, 2, 2⟩,
    .newReferenceIn [⟨0⟩], .newReferenceIn [⟨0⟩], .write ⟨0⟩ (.array [.indirect ⟨1⟩, .null]),
    .write ⟨1⟩ (.array [.indirect ⟨0⟩]), .identityFor ⟨0⟩ ⟨1⟩, .delete ⟨0⟩ ⟨0⟩]
  have hrun := runs_events perform calls (ofFilters .standard)
  have hsmooth : (Operation.events perform calls (ofFilters .standard)).all
      (fun e => e.call.inMemory && e.outcome.isOk) = true := by
    decide +kernel
  have hlog := fun e he => Smooth.of_ok (List.all_eq_true.1 hsmooth e he)
  have hview : (Operation.after perform calls (ofFilters .standard)).bindings.view ⟨1⟩ ⟨0⟩ = some ⟨1, 0⟩ := by
    decide +kernel
  have hrefs : (current (Operation.events perform calls (ofFilters .standard)) ⟨0⟩).map Object.references =
      some [⟨1⟩] := by
    decide +kernel
  obtain ⟨o, ho, hr⟩ := Option.map_eq_some_iff.1 hrefs
  obtain ⟨st, hst, hres⟩ := (resolve_of_run hrun hlog ⟨0⟩).1 ⟨1⟩ ⟨1, 0⟩ hview
  rw [ho] at hres
  exact ⟨_, _, hrun, hlog, Operation.map_call_events perform calls _, hview, o, st, ho, hr, hst, hres⟩

end PdfStore.Session
