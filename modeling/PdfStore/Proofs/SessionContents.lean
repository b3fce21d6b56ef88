import PdfStore.Proofs.BindingViews
import PdfStore.Proofs.StoreOperations
import PdfStore.Session.Basic

/-!
# What a session holds

A reference has a place in every store: nothing is given out for it there, or an identity without a body,
or an object with its body (`Session.place`). The source of a reference is a store that holds its object.
-/

namespace PdfStore.Session

variable {s t u : Session} {i j : StoreId} {r q : Reference} {id : ObjectId} {o : Object} {b : Bytes}

def place (s : Session) (i : StoreId) (r : Reference) : Standing :=
  match s.store? i, s.bindings.view i r with
  | some st, some id => st.standing id
  | _, _ => .absent

/-- The object that is taken along when a reference is bound to another store. -/
def origin (s : Session) (r : Reference) : Option Object :=
  (s.bindings.source r).bind fun i => (s.place i r).object?

/-- An object that can be written once its references are bound. -/
def Sound (s : Session) (o : Object) : Prop := o.Finite ∧ ∀ q ∈ o.references, s.bindings.Knows q

/-- The invariant of sessions. -/
structure WellFormed (s : Session) : Prop where
  stores : ∀ {i st}, s.store? i = some st → st.WellFormed
  ascending : s.bindings.Ascending
  bound : ∀ {i r id}, s.bindings.view i r = some id → s.place i r ≠ .absent
  distinct : ∀ {i r q id}, s.bindings.view i r = some id → s.bindings.view i q = some id → r = q
  source : ∀ {r i}, s.bindings.source r = some i → ∃ o b, s.place i r = .written o b
  sound : ∀ {i r o b}, s.place i r = .written o b → s.Sound o

/-- What is written in a store stands there under the identities that the references have now. -/
def Faithful (s : Session) (i : StoreId) : Prop :=
  ∀ {r id o b}, s.bindings.view i r = some id → s.place i r = .written o b →
    (∀ q ∈ o.references, (s.bindings.view i q).isSome) ∧
      ∃ c, o.toBytes (some (s.bindings.view i)) = .ok c ∧ b = FileText.object id c

/-! ## Places -/

theorem place_of_view {st : Store} (hst : s.store? i = some st) (hv : s.bindings.view i r = some id) :
    s.place i r = st.standing id := by
  rw [place, hst, hv]

theorem place_unbound (h : s.bindings.view i r = none) : s.place i r = .absent := by
  rw [place, h]
  cases s.store? i <;> rfl

theorem place_closed (h : s.store? i = none) : s.place i r = .absent := by
  rw [place, h]

theorem view_of_place (h : s.place i r ≠ .absent) : ∃ id, s.bindings.view i r = some id := by
  cases hv : s.bindings.view i r with
  | none => exact absurd (place_unbound hv) h
  | some id => exact ⟨id, rfl⟩

theorem store_of_place (h : s.place i r ≠ .absent) : ∃ st, s.store? i = some st := by
  cases hst : s.store? i with
  | none => exact absurd (place_closed hst) h
  | some st => exact ⟨st, rfl⟩

theorem WellFormed.place_eq_absent (h : s.WellFormed) : s.place i r = .absent ↔ s.bindings.view i r = none := by
  constructor
  · intro hp
    cases hv : s.bindings.view i r with
    | none => rfl
    | some id => exact absurd hp (h.bound hv)
  · exact place_unbound

theorem origin_of_source (h : s.bindings.source r = some i) (hp : s.place i r = .written o b) :
    s.origin r = some o := by
  rw [origin, h, Option.bind_some, hp]
  rfl

theorem origin_eq_some (h : s.origin r = some o) :
    ∃ i b, s.bindings.source r = some i ∧ s.place i r = .written o b := by
  obtain ⟨i, hi, ho⟩ := Option.bind_eq_some_iff.1 h
  refine ⟨i, ?_⟩
  cases hp : s.place i r with
  | absent => simp [hp, Standing.object?] at ho
  | pending => simp [hp, Standing.object?] at ho
  | written o' b =>
      simp only [hp, Standing.object?, Option.some.injEq] at ho
      exact ⟨b, hi, ho ▸ rfl⟩

/-- Where an identity is bound it was bound before, and what stands there stood there before. -/
theorem WellFormed.of_kept (h : s.WellFormed) (hstores : ∀ {i st}, t.store? i = some st → st.WellFormed)
    (hasc : t.bindings.Ascending) (hcount : s.bindings.entries.length ≤ t.bindings.entries.length)
    (hkept : ∀ {i r id}, t.bindings.view i r = some id →
      s.bindings.view i r = some id ∧ t.place i r = s.place i r)
    (hsource : ∀ {r i}, t.bindings.source r = some i → ∃ o b, t.place i r = .written o b) : t.WellFormed where
  stores := hstores
  ascending := hasc
  bound := fun hv => by
    obtain ⟨hv', hp⟩ := hkept hv
    rw [hp]
    exact h.bound hv'
  distinct := fun hv hv' => h.distinct (hkept hv).1 (hkept hv').1
  source := hsource
  sound := fun {i r o b} hp => by
    have hne : t.place i r ≠ .absent := by simp [hp]
    obtain ⟨id, hv⟩ := view_of_place hne
    rw [(hkept hv).2] at hp
    obtain ⟨hfin, hknown⟩ := h.sound hp
    exact ⟨hfin, fun q hq => Nat.lt_of_lt_of_le (hknown q hq) hcount⟩

theorem wellFormed_ofFilters (filters : Registry) : (ofFilters filters).WellFormed := by
  have hstore : ∀ i, (ofFilters filters).store? i = none := fun _ => rfl
  constructor
  case stores =>
    intro i st hst
    rw [hstore] at hst
    cases hst
  case ascending => exact fun _ hb => (List.not_mem_nil hb).elim
  case bound => exact fun hv => by cases hv
  case distinct => exact fun hv => by cases hv
  case source => exact fun hs => by cases hs
  case sound =>
    intro i r o b hp
    rw [place_closed (hstore i)] at hp
    cases hp

/-! ## Replacing a store -/

theorem lt_of_store? {st : Store} (hst : s.store? i = some st) : i.index < s.stores.length := by
  unfold store? at hst
  cases hi : s.stores[i.index]? with
  | none => simp [hi] at hst
  | some _ => exact (List.getElem?_eq_some_iff.1 hi).1

theorem store?_set {st : Store} (hst : s.store? i = some st) (x : Option Store)
    (hs : t.stores = s.stores.set i.index x) (j : StoreId) : t.store? j = if j = i then x else s.store? j := by
  rw [store?, hs, List.getElem?_set]
  have hlt := lt_of_store? hst
  by_cases hj : j = i
  · rw [if_pos hj, if_pos (congrArg StoreId.index hj.symm), if_pos hlt]
    rfl
  · rw [if_neg hj, if_neg fun h => hj (by cases i; cases j; simp_all)]
    rfl

/-- A session in which one reference has another place in one store, under an identity that no other
reference has there. -/
structure Sets (i : StoreId) (r : Reference) (id : ObjectId) (x : Standing) (s t : Session) : Prop where
  wellFormed : t.WellFormed
  source : ∀ q, t.bindings.source q = s.bindings.source q
  count : t.bindings.entries.length = s.bindings.entries.length
  size : t.stores.length = s.stores.length
  device : ∀ j, (t.store? j).map (·.output.device) = (s.store? j).map (·.output.device)
  view : ∀ j q, t.bindings.view j q = if j = i ∧ q = r then some id else s.bindings.view j q
  place : ∀ j q, t.place j q = if j = i ∧ q = r then x else s.place j q

theorem sets_of_becomes {st st' : Store} {x : Standing} {u : Bindings} (h : s.WellFormed)
    (hst : s.store? i = some st) (hb : st.Becomes id x st') (hx : x ≠ .absent)
    (hid : ∀ q, s.bindings.view i q = some id → q = r)
    (hview : ∀ j q, u.view j q = if j = i ∧ q = r then some id else s.bindings.view j q)
    (hsource : ∀ q, u.source q = s.bindings.source q)
    (hcount : u.entries.length = s.bindings.entries.length) (hasc : u.Ascending)
    (hkept : ∀ o b, s.place i r = .written o b → ∃ o' b', x = .written o' b')
    (hsound : ∀ o b, x = .written o b → s.Sound o) :
    Sets i r id x s { s with stores := s.stores.set i.index (some st'), bindings := u } := by
  generalize ht : ({ s with stores := s.stores.set i.index (some st'), bindings := u } : Session) = t
  have hstores : ∀ j, t.store? j = if j = i then some st' else s.store? j := store?_set hst _ (by rw [← ht])
  have hbind : t.bindings = u := by rw [← ht]
  have hplace : ∀ j q, t.place j q = if j = i ∧ q = r then x else s.place j q := by
    intro j q
    rw [place, hstores, hbind, hview]
    by_cases hj : j = i
    · subst hj
      by_cases hq : q = r
      · simp [hq, hb.self]
      · simp only [hq, and_false, if_false, if_true, place, hst]
        cases hv : s.bindings.view j q with
        | none => rfl
        | some id' => exact hb.of_ne fun heq => hq (hid q (heq ▸ hv))
    · simp [hj, place]
  have hsource' : ∀ q, t.bindings.source q = s.bindings.source q := fun q => by rw [hbind, hsource]
  have hview' : ∀ j q, t.bindings.view j q = if j = i ∧ q = r then some id else s.bindings.view j q :=
    fun j q => by rw [hbind, hview]
  have hcount' : t.bindings.entries.length = s.bindings.entries.length := by rw [hbind, hcount]
  have hsize : t.stores.length = s.stores.length := by rw [← ht, List.length_set]
  have hsound' : ∀ o, s.Sound o → t.Sound o := fun o ho =>
    ⟨ho.1, fun q hq => by rw [Bindings.Knows, hcount']; exact ho.2 q hq⟩
  refine ⟨?_, hsource', hcount', hsize, fun j => ?_, hview', hplace⟩
  · constructor
    case stores =>
      intro j st₁ hj
      rw [hstores] at hj
      split at hj
      · cases hj
        exact hb.wellFormed
      · exact h.stores hj
    case ascending => exact hbind ▸ hasc
    case bound =>
      intro j q id' hv
      rw [hplace]
      rw [hview'] at hv
      split
      · exact hx
      · rename_i hne
        rw [if_neg hne] at hv
        exact h.bound hv
    case distinct =>
      intro j q q' id' hv hv'
      rw [hview'] at hv hv'
      split at hv
      · rename_i heq
        cases hv
        split at hv'
        · rename_i heq'
          exact heq.2.trans heq'.2.symm
        · exact heq.2.trans (hid q' (heq.1 ▸ hv')).symm
      · split at hv'
        · rename_i heq'
          cases hv'
          exact (hid q (heq'.1 ▸ hv)).trans heq'.2.symm
        · exact h.distinct hv hv'
    case source =>
      intro q j hq
      rw [hsource'] at hq
      obtain ⟨o, b, hp⟩ := h.source hq
      rw [hplace]
      split
      · rename_i heq
        rw [heq.1, heq.2] at hp
        exact hkept o b hp
      · exact ⟨o, b, hp⟩
    case sound =>
      intro j q o b hp
      rw [hplace] at hp
      split at hp
      · exact hsound' o (hsound o b hp)
      · exact hsound' o (h.sound hp)
  · rw [hstores]
    split
    · rename_i heq
      rw [heq, hst, Option.map_some, Option.map_some, hb.device]
    · rfl

end PdfStore.Session
