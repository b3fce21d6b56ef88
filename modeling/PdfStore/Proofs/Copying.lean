import PdfStore.Proofs.IdentityHistory
import PdfStore.Proofs.ReadBack

/-!
# What comes along with a reference

A reference that is bound to a store brings its object, the objects of the references in it, and so on
(`Session.Needed`). While this goes on, some of these references are bound, the objects of some of them are
copied, and those of the others are due (`Session.Copying`). At the end nothing is due, so that no reference
and no object that is needed is missing. Objects may be shared and may refer to each other in circles.
-/

namespace PdfStore

namespace Store

/-- A store to which bodies have been added. -/
structure Gains (bodies : List Bytes) (st st' : Store) : Prop where
  config : st'.config = st.config
  catalog : st'.catalog = st.catalog
  info : st'.info = st.info
  device : st'.output.device = st.output.device
  content : st'.output.content = st.output.content ++ bodies.flatten

end Store

namespace Session

variable {s t u : Session} {i j : StoreId} {r q : Reference} {id : ObjectId} {o : Object} {st st' : Store}
variable {d : Delivery} {pending front : List Delivery} {e : SessionError}

/-! ## What is needed -/

/-- The references that `r` brings to a store: itself, and those in the objects of such references, unless they
have been bound to the store before. -/
inductive Needed (s : Session) (i : StoreId) (r : Reference) : Reference → Prop
  | self : Needed s i r r
  | listed {x q : Reference} {o : Object} (hx : Needed s i r x) (ho : s.origin x = some o)
      (hq : q ∈ o.references) (hn : s.bindings.view i q = none) : Needed s i r q

theorem Needed.unbound (hr : s.bindings.view i r = none) (hq : Needed s i r q) : s.bindings.view i q = none := by
  cases hq with
  | self => exact hr
  | listed _ _ _ hn => exact hn

/-! ## Copies -/

/-- An object that has been written to another store: its reference, its identity there, and its written form. -/
structure Copy where
  reference : Reference
  id : ObjectId
  object : Object
  content : Bytes

def Copy.body (c : Copy) : Bytes := FileText.object c.id c.content

/-- A copy holds the object of its reference, written under the identities that its references have. -/
structure Copy.Stands (c : Copy) (i : StoreId) (s t : Session) : Prop where
  unbound : s.bindings.view i c.reference = none
  origin : s.origin c.reference = some c.object
  view : t.bindings.view i c.reference = some c.id
  bound : ∀ q ∈ c.object.references, (t.bindings.view i q).isSome
  written : c.object.toBytes (some (t.bindings.view i)) = .ok c.content
  place : t.place i c.reference = .written c.object c.body

variable {copies : List Copy}

/-- A session in which references that `r` needs have been bound to a store, each under an identity of its own
that has never been given out, and in which some of their objects have been copied, one body for each. Those
that have not been copied have no body. Nothing else has changed. -/
structure Copies (i : StoreId) (r : Reference) (copies : List Copy) (s t : Session) : Prop where
  wellFormed : t.WellFormed
  filters : t.filters = s.filters
  count : t.bindings.entries.length = s.bindings.entries.length
  source : ∀ q, t.bindings.source q = s.bindings.source q
  others : ∀ {j}, j ≠ i → t.store? j = s.store? j
  kept : ∀ {j q id}, s.bindings.view j q = some id → t.bindings.view j q = some id
  bound : ∀ {j q id}, t.bindings.view j q = some id → s.bindings.view j q = some id ∨ j = i ∧ Needed s i r q
  fresh : ∀ {st q id}, s.store? i = some st → s.bindings.view i q = none → t.bindings.view i q = some id →
    ¬ st.table.Past id
  store : ∀ {st}, s.store? i = some st → ∃ st', t.store? i = some st' ∧ st.Gains (copies.map Copy.body) st'
  reserved : ∀ {st st' id}, s.store? i = some st → t.store? i = some st' → st'.standing id ≠ st.standing id →
    ∃ q, s.bindings.view i q = none ∧ t.bindings.view i q = some id
  distinct : (copies.map Copy.reference).Nodup
  stands : ∀ c ∈ copies, c.Stands i s t
  unwritten : ∀ {q}, s.bindings.view i q = none → (t.bindings.view i q).isSome → q ∉ copies.map Copy.reference →
    t.place i q = .pending

/-- What holds while copies are made and others are due. -/
structure Copying (i : StoreId) (r : Reference) (copies : List Copy) (pending : List Delivery) (s t : Session) :
    Prop extends Copies i r copies s t where
  binds : Binds s t
  due : ∀ d ∈ pending, ∃ q, s.bindings.view i q = none ∧ t.bindings.view i q = some d.id ∧
    s.origin q = some d.object ∧ q ∉ copies.map Copy.reference
  once : (pending.map Delivery.id).Nodup
  paid : ∀ {q id o}, s.bindings.view i q = none → t.bindings.view i q = some id → s.origin q = some o →
    ⟨id, o⟩ ∈ pending ∨ q ∈ copies.map Copy.reference

theorem fresh_of_binds (h : s.WellFormed) (hb : Binds s t) (hst : s.store? i = some st)
    (hn : s.bindings.view i q = none) (hv : t.bindings.view i q = some id) : ¬ st.table.Past id := by
  rcases hb.bound hv with hold | ⟨st₁, hst₁, hnew⟩
  · rw [Names, hn] at hold
    cases hold
  · rw [hst] at hst₁
    cases hst₁
    exact (hnew (h.stores hst).chained).1

theorem Copying.first (h : s.WellFormed) : Copying i r [] [] s s where
  wellFormed := h
  filters := rfl
  count := rfl
  source := fun _ => rfl
  others := fun _ => rfl
  kept := fun hv => hv
  bound := fun hv => Or.inl hv
  fresh := fresh_of_binds h (.refl s)
  store := fun hst => ⟨_, hst, rfl, rfl, rfl, rfl, by simp⟩
  reserved := fun hst hst' hne => by
    rw [hst] at hst'
    cases hst'
    exact absurd rfl hne
  distinct := List.nodup_nil
  stands := fun _ hc => absurd hc List.not_mem_nil
  unwritten := fun hn hv _ => by simp [hn] at hv
  binds := .refl s
  due := fun _ hd => absurd hd List.not_mem_nil
  once := List.nodup_nil
  paid := fun hn hv _ => by
    rw [hn] at hv
    cases hv

theorem Copy.Stands.mono {c : Copy} (h : c.Stands i s t)
    (hkept : ∀ {q id}, t.bindings.view i q = some id → u.bindings.view i q = some id)
    (hplace : u.place i c.reference = t.place i c.reference) : c.Stands i s u := by
  have hsame : ∀ q ∈ c.object.references, u.bindings.view i q = t.bindings.view i q := fun q hq => by
    obtain ⟨id, hid⟩ := Option.isSome_iff_exists.1 (h.bound q hq)
    rw [hid, hkept hid]
  refine ⟨h.unbound, h.origin, hkept h.view, fun q hq => ?_, ?_, hplace.trans h.place⟩
  · rw [hsame q hq]
    exact h.bound q hq
  · rw [Object.toBytes_congr hsame]
    exact h.written

/-- A reference that has not been bound yet still brings the object that it would have brought at first. -/
theorem Copies.origin_eq (hc : Copies i r copies s t) (h : s.WellFormed) (hn : t.bindings.view i q = none) :
    t.origin q = s.origin q := by
  rw [origin, origin, hc.source]
  cases hs : s.bindings.source q with
  | none => rfl
  | some j =>
      obtain ⟨o, b, hp⟩ := h.source hs
      obtain ⟨id, hv⟩ := view_of_place (by simp [hp] : s.place j q ≠ .absent)
      have hv' := hc.kept hv
      have hj : j ≠ i := fun heq => by
        rw [← heq, hv'] at hn
        cases hn
      rw [Option.bind_some, Option.bind_some, place, place, hc.others hj, hv, hv']

theorem Copies.isOpen (hc : Copies i r copies s t) (hst : s.store? i = some st) : ∃ st', t.store? i = some st' := by
  obtain ⟨st', hst', -⟩ := hc.store hst
  exact ⟨st', hst'⟩

theorem Copies.unbound (hc : Copies i r copies s t) (hn : t.bindings.view i q = none) :
    s.bindings.view i q = none := by
  cases hv : s.bindings.view i q with
  | none => rfl
  | some id =>
      rw [hc.kept hv] at hn
      cases hn

theorem Copies.bind {more : List Delivery} (hc : Copies i r copies s t) (h : s.WellFormed) (hbinds : Binds s u)
    (hn : t.bindings.view i q = none) (hq : Needed s i r q) (hok : bindInto i q t = .ok (id, more) u) :
    Copies i r copies s u := by
  have hsets := sets_of_bindInto hc.wellFormed hn hok
  have hres := reserves_bindInto hc.wellFormed hn hok
  constructor
  case wellFormed => exact hsets.wellFormed
  case filters => exact hres.filters.trans hc.filters
  case count => exact hsets.count.trans hc.count
  case source => exact fun x => (hres.source x).trans (hc.source x)
  case others => exact fun hj => (hres.others hj).trans (hc.others hj)
  case kept => exact fun hv => hres.kept (hc.kept hv)
  case bound =>
    intro j x id' hv
    rcases hres.bound hv with hv | ⟨hj, rfl, -⟩
    · exact hc.bound hv
    · exact Or.inr ⟨hj, hq⟩
  case fresh => exact fresh_of_binds h hbinds
  case store =>
    intro st hst
    obtain ⟨st₁, hst₁, hg⟩ := hc.store hst
    obtain ⟨st₂, hst₂, hsame⟩ := hres.isOpen hst₁
    simp only [Store.besideTable, Prod.mk.injEq] at hsame
    obtain ⟨hconfig, hout, -, hcat, hinfo⟩ := hsame
    exact ⟨st₂, hst₂, hconfig.trans hg.config, hcat.trans hg.catalog, hinfo.trans hg.info,
      hout ▸ hg.device, hout ▸ hg.content⟩
  case reserved =>
    intro st st₂ id' hst hst₂ hne
    obtain ⟨st₁, hst₁⟩ := hc.isOpen hst
    by_cases heq : st₁.standing id' = st.standing id'
    · obtain ⟨-, -, x, hx, hv⟩ := hres.reserved hst₁ hst₂ (heq ▸ hne)
      exact ⟨x, hc.unbound hx, hv⟩
    · obtain ⟨x, hx, hv⟩ := hc.reserved hst hst₁ heq
      exact ⟨x, hx, hres.kept hv⟩
  case distinct => exact hc.distinct
  case stands =>
    intro c hcm
    have hstands := hc.stands c hcm
    exact hstands.mono hres.kept (hres.place_eq (by simp [hstands.place]))
  case unwritten =>
    intro x hx hv hnot
    obtain ⟨id', hv⟩ := Option.isSome_iff_exists.1 hv
    rcases hres.bound hv with hv | ⟨-, -, hp⟩
    · have hp := hc.unwritten hx (by simp [hv]) hnot
      rw [hres.place_eq (by simp [hp]), hp]
    · exact hp

theorem Copying.bind {more : List Delivery} (hc : Copying i r copies (front ++ pending) s t) (h : s.WellFormed)
    (hn : t.bindings.view i q = none) (hq : Needed s i r q) (hok : bindInto i q t = .ok (id, more) u)
    (hmore : more = (t.origin q).toList.map (Delivery.mk id)) :
    Copying i r copies (front ++ (more ++ pending)) s u := by
  have hsets := sets_of_bindInto hc.wellFormed hn hok
  have hres := reserves_bindInto hc.wellFormed hn hok
  have hbinds : Binds s u := hc.binds.trans (Operation.next_ok hok ▸ keeps_bindInto i q t)
  have hnew : u.bindings.view i q = some id := (hsets.view i q).trans (if_pos ⟨rfl, rfl⟩)
  have hnot : q ∉ copies.map Copy.reference := fun hmem => by
    obtain ⟨c, hcm, rfl⟩ := List.mem_map.1 hmem
    rw [(hc.stands c hcm).view] at hn
    cases hn
  constructor
  case toCopies => exact hc.toCopies.bind h hbinds hn hq hok
  case binds => exact hbinds
  case due =>
    intro d hd
    simp only [List.mem_append, hmore, List.mem_map, Option.mem_toList] at hd
    have hold : d ∈ front ++ pending → ∃ x, s.bindings.view i x = none ∧ u.bindings.view i x = some d.id ∧
        s.origin x = some d.object ∧ x ∉ copies.map Copy.reference := fun hd => by
      obtain ⟨x, hx, hv, ho⟩ := hc.due d hd
      exact ⟨x, hx, hres.kept hv, ho⟩
    rcases hd with hd | ⟨o, ho, rfl⟩ | hd
    · exact hold (List.mem_append_left _ hd)
    · exact ⟨q, hc.unbound hn, hnew, hc.origin_eq h hn ▸ ho, hnot⟩
    · exact hold (List.mem_append_right _ hd)
  case once =>
    -- The identity is none of those that are due.
    have hid : id ∉ (front ++ pending).map Delivery.id := fun hmem => by
      obtain ⟨d, hd, rfl⟩ := List.mem_map.1 hmem
      obtain ⟨x, -, hv, -⟩ := hc.due d hd
      rw [hsets.wellFormed.distinct hnew (hres.kept hv), hv] at hn
      cases hn
    cases ho : t.origin q with
    | none =>
        rw [hmore, ho]
        exact hc.once
    | some o =>
        have hperm : (front ++ (more ++ pending)).Perm (⟨id, o⟩ :: (front ++ pending)) := by
          rw [hmore, ho]
          exact List.perm_middle
        exact (hperm.map Delivery.id).nodup_iff.2 (List.nodup_cons.2 ⟨hid, hc.once⟩)
  case paid =>
    intro x id' o hx hv ho
    by_cases hxq : x = q
    · subst hxq
      rw [hnew] at hv
      cases hv
      refine Or.inl (List.mem_append_right _ (List.mem_append_left _ ?_))
      rw [hmore, hc.origin_eq h hn, ho]
      exact List.mem_cons_self
    · rw [hsets.view, if_neg fun heq => hxq heq.2] at hv
      refine (hc.paid hx hv ho).imp_left fun hmem => ?_
      rcases List.mem_append.1 hmem with hmem | hmem
      · exact List.mem_append_left _ hmem
      · exact List.mem_append_right _ (List.mem_append_right _ hmem)

/-! ## Copying an object -/

/-- What writing an object has done to its store. -/
theorem put_ok (h : s.WellFormed) (hv : s.bindings.view i q = some d.id) (hput : put i d s = .ok () t) :
    ∃ st st' c, s.store? i = some st ∧ t = s.setStore i (some st') ∧
      d.object.toBytes (some (s.bindings.view i)) = .ok c ∧
      st.Becomes d.id (.written d.object (FileText.object d.id c)) st' ∧ st.Gains [FileText.object d.id c] st' := by
  obtain ⟨refs, _, hlook, honStore⟩ := Operation.bind_ok hput
  obtain ⟨htable, rfl⟩ := look_ok hlook
  cases refs_of_table htable
  obtain ⟨st, st', hst, hwrite, rfl⟩ := store_of_onStore honStore
  have hlive : st.standing d.id ≠ .absent := place_of_view hst hv ▸ h.bound hv
  rw [put_store (h.stores hst) hlive] at hwrite
  obtain ⟨n, _, happend, hend⟩ := Operation.bind_ok hwrite
  cases hend
  rcases Store.appendBody_cases (h.stores hst) hlive d.object (s.bindings.view i) with
    ⟨c, st₁, hok, hc, hb⟩ | ⟨cause, he, -⟩ | ⟨he, -⟩
  · rw [happend] at hok
    cases hok
    obtain ⟨c', u, out, hc', -, -, hd, hout, rfl⟩ := Store.appendBody_ok happend
    rw [hc] at hc'
    cases hc'
    exact ⟨st, _, c, hst, rfl, hc, hb, rfl, rfl, rfl, hd, by simpa using hout⟩
  · rw [happend] at he
    cases he
  · rw [happend] at he
    cases he

theorem Copies.put {c : Copy} (hc : Copies i r copies s t) (h : s.WellFormed) (hbinds : Binds s u)
    (hnew : c.reference ∉ copies.map Copy.reference) (hstands : c.Stands i s u)
    (hsets : Sets i c.reference c.id (.written c.object c.body) t u) (hbindings : u.bindings = t.bindings)
    (hst : t.store? i = some st) (hb : st.Becomes c.id (.written c.object c.body) st')
    (hg : st.Gains [c.body] st') (hu : u = t.setStore i (some st')) : Copies i r (copies ++ [c]) s u := by
  have hstores : ∀ j, u.store? j = if j = i then some st' else t.store? j := store?_set hst _ (by rw [hu]; rfl)
  have hself : u.store? i = some st' := (hstores i).trans (if_pos rfl)
  have hplace : ∀ q, q ≠ c.reference → u.place i q = t.place i q := fun q hq =>
    (hsets.place i q).trans (if_neg fun heq => hq heq.2)
  constructor
  case wellFormed => exact hsets.wellFormed
  case filters => rw [hu]; exact hc.filters
  case count => rw [hbindings]; exact hc.count
  case source => rw [hbindings]; exact hc.source
  case others => exact fun hj => ((hstores _).trans (if_neg hj)).trans (hc.others hj)
  case kept => rw [hbindings]; exact hc.kept
  case bound => rw [hbindings]; exact hc.bound
  case fresh => exact fresh_of_binds h hbinds
  case store =>
    intro st₀ hst₀
    obtain ⟨st₁, hst₁, hg₁⟩ := hc.store hst₀
    rw [hst] at hst₁
    cases hst₁
    refine ⟨st', hself, hg.config.trans hg₁.config, hg.catalog.trans hg₁.catalog, hg.info.trans hg₁.info,
      hg.device.trans hg₁.device, ?_⟩
    rw [hg.content, hg₁.content, List.map_append, List.flatten_append, List.append_assoc, List.map_singleton]
  case reserved =>
    intro st₀ st₂ id hst₀ hst₂ hne
    rw [hself] at hst₂
    cases hst₂
    by_cases hid : id = c.id
    · exact ⟨c.reference, hstands.unbound, hid ▸ hstands.view⟩
    · rw [hb.of_ne hid] at hne
      obtain ⟨q, hn, hv⟩ := hc.reserved hst₀ hst hne
      exact ⟨q, hn, hbindings ▸ hv⟩
  case distinct =>
    rw [List.map_append, List.map_singleton]
    exact List.nodup_append.2 ⟨hc.distinct, List.pairwise_singleton _ _, fun a ha b hb heq =>
      hnew (List.mem_singleton.1 hb ▸ heq ▸ ha)⟩
  case stands =>
    intro c' hc'
    rcases List.mem_append.1 hc' with hc' | hc'
    · refine (hc.stands c' hc').mono (fun hv => hbindings ▸ hv) (hplace _ fun heq => hnew ?_)
      exact heq ▸ List.mem_map_of_mem hc'
    · rw [List.mem_singleton.1 hc']
      exact hstands
  case unwritten =>
    intro q hn hv hnot
    rw [List.map_append, List.mem_append, not_or, List.map_singleton, List.mem_singleton] at hnot
    rw [hplace q hnot.2]
    exact hc.unwritten hn (hbindings ▸ hv) hnot.1

theorem Copying.put (hc : Copying i r copies (d :: pending) s t) (h : s.WellFormed)
    (hrefs : ∀ q ∈ d.object.references, (t.bindings.view i q).isSome) (hput : Session.put i d t = .ok () u) :
    ∃ c, Copying i r (copies ++ [c]) pending s u := by
  obtain ⟨q, hn, hv, ho, hnew⟩ := hc.due d List.mem_cons_self
  obtain ⟨st, st', content, hst, hu, hwritten, hb, hg⟩ := put_ok hc.wellFormed hv hput
  have hbindings := bindings_put hput
  have hbinds : Binds s u := hc.binds.trans (Operation.next_ok hput ▸ keeps_put i d t)
  have hsets : Sets i q d.id (.written d.object (FileText.object d.id content)) t u := by
    rcases put_cases hc.wellFormed hst hv hrefs with ⟨content', u', hput', hc', hsets⟩ | ⟨e, he, -⟩ | ⟨he, -⟩
    · rw [hput] at hput'
      rw [hwritten] at hc'
      cases hput'
      cases hc'
      exact hsets
    · rw [hput] at he
      cases he
    · rw [hput] at he
      cases he
  let c : Copy := ⟨q, d.id, d.object, content⟩
  have hstands : c.Stands i s u := by
    refine ⟨hn, ho, ?_, ?_, ?_, (hsets.place i q).trans (if_pos ⟨rfl, rfl⟩)⟩
    · rw [hbindings]
      exact hv
    · rw [hbindings]
      exact hrefs
    · rw [hbindings]
      exact hwritten
  obtain ⟨hfirst, hrest⟩ := List.nodup_cons.1 hc.once
  refine ⟨c, ?_⟩
  constructor
  case toCopies => exact hc.toCopies.put h hbinds hnew hstands hsets hbindings hst hb hg hu
  case binds => exact hbinds
  case due =>
    intro d' hd'
    obtain ⟨q', hn', hv', ho', hnew'⟩ := hc.due d' (List.mem_cons_of_mem _ hd')
    refine ⟨q', hn', hbindings ▸ hv', ho', fun hmem => ?_⟩
    rw [List.map_append, List.mem_append, List.map_singleton, List.mem_singleton] at hmem
    rcases hmem with hmem | rfl
    · exact hnew' hmem
    · rw [hv] at hv'
      exact hfirst (Option.some.inj hv' ▸ List.mem_map_of_mem hd')
  case once => exact hrest
  case paid =>
    intro q' id o hn' hv' ho'
    rw [List.map_append, List.mem_append, List.map_singleton, List.mem_singleton]
    rcases hc.paid hn' (hbindings ▸ hv') ho' with hmem | hmem
    · rcases List.mem_cons.1 hmem with heq | hmem
      · refine Or.inr (Or.inr (hsets.wellFormed.distinct hv' ?_))
        rw [hbindings, hv, ← heq]
      · exact Or.inl hmem
    · exact Or.inr (Or.inl hmem)

/-! ## Delivering -/

end Session

end PdfStore
