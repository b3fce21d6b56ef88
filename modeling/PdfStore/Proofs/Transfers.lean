import PdfStore.Proofs.SessionContents

/-!
# Transfers

While objects are brought into stores, references are bound and objects written, and nothing else happens:
no identity is taken back and no source moves. Which stores take part (`scope`), and which objects may come
to stand there (`want`), is told beforehand.
-/

namespace PdfStore.Session

variable {s t u : Session} {i j : StoreId} {r q : Reference} {id : ObjectId} {o : Object} {b : Bytes}
variable {scope scope' : StoreId → Prop} {want want' : StoreId → Reference → Option Object}

structure Transfer (scope : StoreId → Prop) (want : StoreId → Reference → Option Object) (s t : Session) :
    Prop where
  wellFormed : t.WellFormed
  source : ∀ q, t.bindings.source q = s.bindings.source q
  count : t.bindings.entries.length = s.bindings.entries.length
  size : t.stores.length = s.stores.length
  device : ∀ j, (t.store? j).map (·.output.device) = (s.store? j).map (·.output.device)
  view : ∀ {j q id}, s.bindings.view j q = some id → t.bindings.view j q = some id
  place : ∀ j q, t.place j q = s.place j q ∨
    scope j ∧ (∃ o b, want j q = some o ∧ t.place j q = .written o b) ∨
    scope j ∧ s.place j q = .absent ∧ t.place j q = .pending
  faithful : ∀ {j}, s.Faithful j → t.Faithful j

namespace Transfer

theorem refl (h : s.WellFormed) : Transfer scope want s s :=
  ⟨h, fun _ => rfl, rfl, rfl, fun _ => rfl, fun h => h, fun _ _ => Or.inl rfl, fun h => h⟩

theorem mono (h : Transfer scope want s t) (hs : ∀ j, scope j → scope' j)
    (hw : ∀ j q o, want j q = some o → want' j q = some o) : Transfer scope' want' s t where
  wellFormed := h.wellFormed
  source := h.source
  count := h.count
  size := h.size
  device := h.device
  view := h.view
  place := fun j q => by
    rcases h.place j q with hp | ⟨hj, o, b, hq, hp⟩ | ⟨hj, hp⟩
    · exact Or.inl hp
    · exact Or.inr (Or.inl ⟨hs j hj, o, b, hw j q o hq, hp⟩)
    · exact Or.inr (Or.inr ⟨hs j hj, hp⟩)
  faithful := h.faithful

theorem trans (h : Transfer scope want s t) (h' : Transfer scope want t u) : Transfer scope want s u where
  wellFormed := h'.wellFormed
  source := fun q => (h'.source q).trans (h.source q)
  count := h'.count.trans h.count
  size := h'.size.trans h.size
  device := fun j => (h'.device j).trans (h.device j)
  view := fun hv => h'.view (h.view hv)
  place := fun j q => by
    rcases h'.place j q with hp' | hw | ⟨hj, ha, hp'⟩
    · rw [hp']
      exact h.place j q
    · exact Or.inr (Or.inl hw)
    · -- What is absent in between was absent before.
      rcases h.place j q with hp | ⟨-, o, b, -, hp⟩ | ⟨-, -, hp⟩
      · exact Or.inr (Or.inr ⟨hj, hp ▸ ha, hp'⟩)
      · rw [ha] at hp
        cases hp
      · rw [ha] at hp
        cases hp
  faithful := fun hf => h'.faithful (h.faithful hf)

theorem knows (h : Transfer scope want s t) : t.bindings.Knows r ↔ s.bindings.Knows r := by
  rw [Bindings.Knows, Bindings.Knows, h.count]

theorem sound (h : Transfer scope want s t) (ho : s.Sound o) : t.Sound o :=
  ⟨ho.1, fun q hq => h.knows.2 (ho.2 q hq)⟩

theorem isOpen (h : Transfer scope want s t) {st : Store} (hst : s.store? j = some st) :
    ∃ st', t.store? j = some st' ∧ st'.output.device = st.output.device := by
  have hd := h.device j
  rw [hst, Option.map_some] at hd
  exact Option.map_eq_some_iff.1 hd

theorem written (h : Transfer scope want s t) (hp : s.place j q = .written o b) :
    ∃ o' b', t.place j q = .written o' b' := by
  rcases h.place j q with hp' | ⟨-, o', b', -, hp'⟩ | ⟨-, ha, -⟩
  · exact ⟨o, b, hp'.trans hp⟩
  · exact ⟨o', b', hp'⟩
  · rw [ha] at hp
    cases hp

/-- The object that a reference takes along stays what it is, if none is wanted where it is bound. -/
theorem origin (h : Transfer scope want s t) (hs : s.WellFormed)
    (hw : ∀ j, scope j → s.place j q ≠ .absent → want j q = none) : t.origin q = s.origin q := by
  cases hq : s.bindings.source q with
  | none =>
      have ht : t.bindings.source q = none := (h.source q).trans hq
      rw [Session.origin, Session.origin, hq, ht]
      rfl
  | some j =>
      obtain ⟨o, b, hp⟩ := hs.source hq
      rcases h.place j q with hp' | ⟨hj, o', b', hq', -⟩ | ⟨-, ha, -⟩
      · rw [Session.origin, Session.origin, h.source, hq, Option.bind_some, Option.bind_some, hp']
      · rw [hw j hj (by rw [hp]; simp)] at hq'
        cases hq'
      · rw [ha] at hp
        cases hp

end Transfer

/-! ## Binding one reference and writing one object -/

theorem Sets.transfer_bind (h : Sets i r id .pending s t) (hi : scope i)
    (hn : s.bindings.view i r = none) : Transfer scope want s t where
  wellFormed := h.wellFormed
  source := h.source
  count := h.count
  size := h.size
  device := h.device
  view := fun {j q id'} hv => by
    rw [h.view]
    split
    · rename_i heq
      rw [heq.1, heq.2, hn] at hv
      cases hv
    · exact hv
  place := fun j q => by
    rw [h.place]
    split
    · rename_i heq
      rw [heq.1, heq.2]
      exact Or.inr (Or.inr ⟨hi, place_unbound hn, rfl⟩)
    · exact Or.inl rfl
  faithful := fun {j} hf q id' o b hv hp => by
    rw [h.place] at hp
    split at hp
    · cases hp
    · rename_i hne
      rw [h.view, if_neg hne] at hv
      obtain ⟨hrefs, c, hc, hb⟩ := hf hv hp
      -- The reference that is bound is none of those written so far.
      have hsame : ∀ q' ∈ o.references, s.bindings.view j q' = t.bindings.view j q' := by
        intro q' hq'
        rw [h.view]
        split
        · rename_i heq
          have := hrefs q' hq'
          rw [heq.1, heq.2, hn] at this
          cases this
        · rfl
      exact ⟨fun q' hq' => hsame q' hq' ▸ hrefs q' hq', c, Object.toBytes_congr hsame ▸ hc, hb⟩

/-- No identity is new under a reference that is bound already. -/
theorem Sets.view_eq {x : Standing} (h : Sets i r id x s t) (hv : s.bindings.view i r = some id) (j : StoreId)
    (q : Reference) : t.bindings.view j q = s.bindings.view j q := by
  rw [h.view]
  split
  · rename_i heq
    rw [heq.1, heq.2, hv]
  · rfl

theorem Sets.place_eq (h : Sets i r id (s.place i r) s t) (j : StoreId) (q : Reference) :
    t.place j q = s.place j q := by
  rw [h.place]
  split
  · rename_i heq
    rw [heq.1, heq.2]
  · rfl

theorem Sets.transfer_put {c : Bytes} (h : Sets i r id (.written o (FileText.object id c)) s t)
    (hi : scope i) (hv : s.bindings.view i r = some id) (hw : want i r = some o)
    (hrefs : ∀ q ∈ o.references, (s.bindings.view i q).isSome)
    (hc : o.toBytes (some (s.bindings.view i)) = .ok c) : Transfer scope want s t := by
  constructor
  case wellFormed => exact h.wellFormed
  case source => exact h.source
  case count => exact h.count
  case size => exact h.size
  case device => exact h.device
  case view =>
    intro j q id' hq
    rw [h.view_eq hv, hq]
  case place =>
    intro j q
    rw [h.place]
    split
    · rename_i heq
      rw [heq.1, heq.2]
      exact Or.inr (Or.inl ⟨hi, o, _, hw, rfl⟩)
    · exact Or.inl rfl
  case faithful =>
    intro j hf q id' o' b' hq hp
    have hview : t.bindings.view j = s.bindings.view j := funext (h.view_eq hv j)
    rw [hview] at hq ⊢
    rw [h.place] at hp
    split at hp
    · rename_i heq
      cases hp
      rw [heq.1, heq.2, hv] at hq
      cases hq
      rw [heq.1]
      exact ⟨hrefs, c, hc, rfl⟩
    · exact hf hq hp

theorem Sets.transfer_same (h : Sets i r id (s.place i r) s t) (hv : s.bindings.view i r = some id) :
    Transfer scope want s t where
  wellFormed := h.wellFormed
  source := h.source
  count := h.count
  size := h.size
  device := h.device
  view := fun {j q id'} hq => by rw [h.view_eq hv, hq]
  place := fun j q => Or.inl (h.place_eq j q)
  faithful := fun {j} hf q id' o b hq hp => by
    have hview : t.bindings.view j = s.bindings.view j := funext (h.view_eq hv j)
    rw [hview] at hq ⊢
    rw [h.place_eq] at hp
    exact hf hq hp

end PdfStore.Session
