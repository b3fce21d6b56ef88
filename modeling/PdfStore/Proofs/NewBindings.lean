import PdfStore.Proofs.FailedWrites
import PdfStore.Proofs.Growth

/-!
# New bindings

While references are bound and objects written, no binding is lost, and a reference that gets an identity gets
one that has never been given out in the store. The bodies that are written name references by the identities
that they have from then on. This also holds of the operations that fail, at whatever point they break off.
-/

namespace PdfStore

/-! ## Bindings -/

namespace Bindings

variable {t : Bindings} {r : Reference}

theorem next_create_view (t : Bindings) (j : StoreId) (q : Reference) : (create.next t).view j q = t.view j q := by
  by_cases hlt : t.entries.length < maxHandles
  · rw [Operation.next_ok (create_ok hlt), view_create]
  · rw [Operation.next_error (create_full (Nat.le_of_not_lt hlt))]

end Bindings

namespace Session

variable {s t u : Session} {i j : StoreId} {r q : Reference} {id : ObjectId} {st st' : Store}

/-! ## What is kept -/

/-- The identities of the references in a store. -/
abbrev Names (s : Session) (i : StoreId) (r : Reference) (id : ObjectId) : Prop := s.bindings.view i r = some id

/-- A session in which references have been bound under identities that are new to their stores, and bodies
have been written that name references by identities that they have now. -/
structure Binds (s t : Session) : Prop where
  size : t.stores.length = s.stores.length
  kept : ∀ {i r id}, s.Names i r id → t.Names i r id
  store : ∀ {i st'}, t.store? i = some st' → ∃ st, s.store? i = some st ∧ st.Grows (t.Names i) st'
  bound : ∀ {i r id}, t.Names i r id → s.Names i r id ∨ ∃ st, s.store? i = some st ∧
    (st.table.IsChained → ¬ st.table.Past id ∧ ∀ st', t.store? i = some st' → st'.table.Past id)

theorem Binds.refl (s : Session) : Binds s s :=
  ⟨rfl, fun h => h, fun hst => ⟨_, hst, Std.Refl.refl _⟩, fun h => Or.inl h⟩

theorem Binds.trans (h : Binds s t) (h' : Binds t u) : Binds s u where
  size := h'.size.trans h.size
  kept := fun hv => h'.kept (h.kept hv)
  store := fun hst => by
    obtain ⟨st', hst', hg'⟩ := h'.store hst
    obtain ⟨st, hst, hg⟩ := h.store hst'
    exact ⟨st, hst, IsTrans.trans _ _ _ (hg.mono fun hv => h'.kept hv) hg'⟩
  bound := fun hv => by
    rcases h'.bound hv with hv | ⟨st', hst', hnew⟩
    · refine (h.bound hv).imp_right fun ⟨st, hst, hnew⟩ => ⟨st, hst, fun hc => ⟨(hnew hc).1, fun st'' hst'' => ?_⟩⟩
      obtain ⟨st', hst', hg'⟩ := h'.store hst''
      obtain ⟨st₁, hst₁, hg⟩ := h.store hst'
      rw [hst] at hst₁
      cases hst₁
      exact hg'.table.past (hg.table.chained hc) ((hnew hc).2 st' hst')
    · obtain ⟨st, hst, hg⟩ := h.store hst'
      refine Or.inr ⟨st, hst, fun hc => ?_⟩
      obtain ⟨hn, hp⟩ := hnew (hg.table.chained hc)
      exact ⟨fun hpast => hn (hg.table.past hc hpast), hp⟩

instance : IsPreorder Session Binds where
  refl := .refl
  trans _ _ _ := .trans

/-! ## Operations on parts -/

theorem binds_of_views (hs : t.stores = s.stores) (hv : ∀ j q, t.bindings.view j q = s.bindings.view j q) :
    Binds s t where
  size := congrArg List.length hs
  kept := fun h => (hv _ _).trans h
  store := fun hst => by
    rw [store?, hs] at hst
    exact ⟨_, hst, Std.Refl.refl _⟩
  bound := fun h => Or.inl ((hv _ _).symm.trans h)

theorem binds_setStore (hst : s.store? i = some st) (hg : st.Grows (s.Names i) st') :
    Binds s (s.setStore i (some st')) where
  size := List.length_set
  kept := fun h => h
  store := fun {j st₁} hj => by
    rw [store?_set hst (some st') rfl] at hj
    split at hj
    · rename_i heq
      cases hj
      exact ⟨st, heq ▸ hst, heq ▸ hg⟩
    · exact ⟨st₁, hj, Std.Refl.refl _⟩
  bound := fun h => Or.inl h

theorem next_onStore {α : Type} {x : Operation StoreError Store α} (hst : s.store? i = some st) :
    (onStore i x).next s = s.setStore i (some (x.next st)) := by
  simp only [Operation.next, onStore, hst]
  cases x st <;> rfl

theorem binds_onStore {α : Type} {x : Operation StoreError Store α} (hx : x.Keeps (Store.Grows (s.Names i))) :
    Binds s ((onStore i x).next s) := by
  cases hst : s.store? i with
  | none =>
      rw [Operation.next_error (onStore_closed hst)]
      exact .refl s
  | some st =>
      rw [next_onStore hst]
      exact binds_setStore hst (hx st)

theorem keeps_onStore {α : Type} {x : Operation StoreError Store α} (hx : ∀ {p}, x.Keeps (Store.Grows p)) :
    (onStore i x).Keeps Binds := fun _ => binds_onStore hx

theorem keeps_look {α : Type} (f : Session → Except SessionError α) : (look f).Keeps Binds :=
  Operation.Keeps.get.bind fun s => .ofExcept _ (f s)

theorem keeps_onBindings {α : Type} {x : Operation SessionError Bindings α}
    (hx : ∀ t j q, (x.next t).view j q = t.view j q) : (onBindings x).Keeps Binds := fun s => by
  rw [onBindings, Operation.next_onPart]
  exact binds_of_views rfl (hx s.bindings)

theorem keeps_setSource (r : Reference) (place : Option StoreId) :
    (onBindings (Bindings.setSource r place)).Keeps Binds :=
  keeps_onBindings fun t j q => by
    rw [Bindings.setSource, Operation.next_bind_pure, Bindings.next_change, Bindings.view_setSource]

theorem keeps_newReference : newReference.Keeps Binds := keeps_onBindings Bindings.next_create_view

/-! ## Binding references -/

theorem binds_new (hst : s.store? i = some st) (hok : Store.reserve st = .ok id st')
    (hk : s.bindings.Knows r) (hn : s.bindings.view i r = none) :
    Binds s { s with stores := s.stores.set i.index (some st'), bindings := s.bindings.modify r (·.bind i id) } := by
  generalize ht : ({ s with
    stores := s.stores.set i.index (some st'), bindings := s.bindings.modify r (·.bind i id) } : Session) = t
  have hstores : ∀ j, t.store? j = if j = i then some st' else s.store? j := store?_set hst _ (by rw [← ht])
  have hview : ∀ j q, t.bindings.view j q = if j = i ∧ q = r then some id else s.bindings.view j q :=
    fun j q => by rw [← ht, Bindings.view_bind hk]
  constructor
  case size => rw [← ht, List.length_set]
  case kept =>
    intro j q id' hv
    rw [Names, hview, if_neg]
    · exact hv
    · rintro ⟨rfl, rfl⟩
      rw [Names, hn] at hv
      cases hv
  case store =>
    intro j st₁ hj
    rw [hstores] at hj
    split at hj
    · rename_i heq
      cases hj
      exact ⟨st, heq ▸ hst, Operation.next_ok hok ▸ Store.keeps_reserve st⟩
    · exact ⟨st₁, hj, Std.Refl.refl _⟩
  case bound =>
    intro j q id' hv
    rw [Names, hview] at hv
    split at hv
    · rename_i heq
      cases hv
      obtain ⟨u, hreserve, rfl⟩ := Store.table_of_reserve hok
      refine Or.inr ⟨st, heq.1 ▸ hst, fun hc => ?_⟩
      obtain ⟨hfresh, hpast⟩ := Table.fresh_of_reserve hc hreserve
      refine ⟨hfresh, fun st₁ hj => ?_⟩
      rw [hstores, if_pos heq.1] at hj
      cases hj
      exact hpast
    · exact Or.inl hv

theorem keeps_bindInto (i : StoreId) (r : Reference) : (bindInto i r).Keeps Binds := by
  refine (keeps_look _).of_ok fun {s b _} hlook => ?_
  obtain ⟨hb, rfl⟩ := look_ok hlook
  have hentry := entry_of_binding hb
  have hk : s.bindings.Knows r := (List.getElem?_eq_some_iff.1 hentry).1
  have hview := Bindings.view_of_entry hentry i
  cases hn : b.identity? i with
  | some id => exact .refl s
  | none =>
      cases hst : s.store? i with
      | none =>
          rw [Operation.next_bind_of_error (onStore_closed hst)]
          exact .refl s
      | some st =>
          cases hres : Store.reserve st with
          | error e st' =>
              have he : onStore i Store.reserve s = .error (.store e) (s.setStore i (some st')) := by
                simp only [onStore, hst, hres]
              rw [Operation.next_bind_of_error he]
              exact binds_setStore hst (Operation.next_error hres ▸ Store.keeps_reserve st)
          | ok id st' =>
              have hbind : onBindings (Bindings.bind r i id) (s.setStore i (some st')) = .ok () { s with
                  stores := s.stores.set i.index (some st'), bindings := s.bindings.modify r (·.bind i id) } :=
                onBindings_ok (Bindings.bind_known hk i id)
              rw [Operation.next_bind_of_ok (onStore_ok hst hres), Operation.next_bind_of_ok hbind]
              refine (binds_new hst hres hk (hview.trans hn)).trans ?_
              -- Looking for the object changes nothing.
              cases b.origin? with
              | none => exact .refl _
              | some origin => exact (keeps_look _).bind (fun found => by cases found <;> exact .pure _) _

theorem keeps_bindAll (i : StoreId) (refs : List Reference) (pending : List Delivery) :
    (bindAll i refs pending).Keeps Binds := by
  induction refs generalizing pending with
  | nil => exact .pure pending
  | cons r rest ih => exact (keeps_bindInto i r).bind fun (_, more) => ih (more ++ pending)

/-! ## Delivering -/

theorem refs_of_table {refs : ReferenceTable} (h : s.table i = .ok refs) : refs = s.bindings.view i := by
  unfold table store at h
  cases hst : s.store? i with
  | none =>
      rw [hst] at h
      cases h
  | some st =>
      rw [hst] at h
      cases h
      rfl

theorem keeps_put (i : StoreId) (d : Delivery) : (put i d).Keeps Binds := by
  refine (keeps_look _).of_ok fun {s refs _} hlook => ?_
  obtain ⟨htable, rfl⟩ := look_ok hlook
  rw [refs_of_table htable]
  refine binds_onStore (Operation.Keeps.get.bind fun st => ?_)
  split
  · exact (Store.keeps_replaceAt d.id d.object fun hr => hr).bind fun _ => .pure _
  · exact (Store.keeps_writeAt d.id d.object fun hr => hr).bind fun _ => .pure _

theorem keeps_deliver (i : StoreId) (d : Delivery) (pending : List Delivery) : (deliver i d pending).Keeps Binds :=
  (keeps_bindAll i _ pending).bind fun pending => (keeps_put i d).bind fun _ => .pure pending

theorem keeps_drain (i : StoreId) (pending : List Delivery) :
    Operation.Keeps Binds (drain i pending) := by
  intro s
  induction pending, s using drain.induct i with
  | case1 s =>
      rw [Operation.next_ok (x := drain i []) (by rw [drain])]
      exact .refl s
  | case2 s d rest pending t hok ih =>
      have hstep := keeps_deliver i d rest s
      rw [Operation.next_ok hok] at hstep
      have hnext : Operation.next (drain i (d :: rest)) s = Operation.next (drain i pending) t := by
        simp only [Operation.next, drain_ok hok]
      exact hnext ▸ hstep.trans ih
  | case3 s d rest e t he =>
      have hstep := keeps_deliver i d rest s
      rw [Operation.next_error he] at hstep
      rwa [Operation.next_error (drain_error he)]

theorem keeps_identityFor (r : Reference) (i : StoreId) : (identityFor r i).Keeps Binds :=
  (keeps_bindInto i r).bind fun (id, pending) => (keeps_drain i pending).bind fun _ => .pure id

theorem keeps_newReferenceIn (places : List StoreId) : (newReferenceIn places).Keeps Binds :=
  (Operation.Keeps.forM fun _ => (keeps_look _).bind fun _ => .pure _).bind fun _ =>
    keeps_newReference.bind fun r =>
      (Operation.Keeps.forM fun i => (keeps_identityFor r i).bind fun _ => .pure _).bind fun _ => .pure r

theorem keeps_write (r : Reference) (o : Object) : (write r o).Keeps Binds := by
  refine (keeps_look _).bind fun b => ?_
  cases b.identities.entries with
  | nil => exact .throw _
  | cons first rest =>
      refine (Operation.Keeps.forM fun (i, id) => keeps_drain i [⟨id, o⟩]).bind fun _ => ?_
      refine (keeps_look _).bind fun b => ?_
      split
      · exact keeps_setSource r (some first.1)
      · exact .pure _

theorem keeps_writeNew (i : StoreId) (o : Object) : (writeNew i o).Keeps Binds :=
  (keeps_newReferenceIn [i]).bind fun r => (keeps_write r o).bind fun _ => .pure r

theorem keeps_setCatalog (i : StoreId) (r : Reference) : (setCatalog i r).Keeps Binds :=
  (keeps_identityFor r i).bind fun id => keeps_onStore (Store.keeps_setCatalog id)

theorem keeps_setInfo (i : StoreId) (r : Reference) : (setInfo i r).Keeps Binds :=
  (keeps_identityFor r i).bind fun id => keeps_onStore (Store.keeps_setInfo id)

end Session

end PdfStore
