import PdfStore.Proofs.SessionRuns

/-!
# What a session has kept

A store that holds an object of a reference has got it from the last write to the reference that succeeded,
or from a later one that stopped half-way because a device was full. What stands in a store from which
nothing has been deleted names the identities that the references have now.
-/

namespace PdfStore.Session

variable {s t u : Session} {i j : StoreId} {r q : Reference} {o : Object} {st : Store}

/-! ## Reading a log -/

/-- What a call is to write. -/
def Call.target? (s : Session) : Call → Option (Reference × Object)
  | .write r o => some (r, o)
  | .writeNew _ o => some (⟨s.bindings.entries.length⟩, o)
  | _ => none

/-- The objects that stores may hold for a reference after an event, by those that they may have held before. -/
def offered (ev : Event Call SessionError Session Answer) (r : Reference) (before : List Object) : List Object :=
  match ev.call.target? ev.before, ev.outcome with
  | some (q, o), .ok _ => if r = q then [o] else before
  | some (q, o), .error (.store .device) => if r = q then o :: before else before
  | _, _ => before

/-- The object of the last successful write to a reference, behind those of later writes to it that ended
with a full device. -/
def contenders : Log → Reference → List Object
  | [], _ => []
  | ev :: log, r => offered ev r (contenders log r)

/-- The store in memory that an event has created. -/
def created? (ev : Event Call SessionError Session Answer) : Option StoreId :=
  match ev.call, ev.outcome with
  | .createStore .memory _, .ok (.store i) => some i
  | _, _ => none

/-- The store from which an event has deleted an object. -/
def deletedFrom? (ev : Event Call SessionError Session Answer) : Option StoreId :=
  match ev.call, ev.outcome with
  | .delete _ i, .ok _ => some i
  | _, _ => none

theorem created?_eq_some {ev : Event Call SessionError Session Answer} : created? ev = some i ↔
    ∃ config, ev.call = .createStore .memory config ∧ ev.outcome = .ok (.store i) := by
  unfold created?
  split
  · rename_i config j hcall hout
    rw [hcall, hout]
    simp
  · rename_i hne
    refine ⟨fun h => (by cases h), fun ⟨config, hcall, hout⟩ => absurd hout (hne config i hcall)⟩

/-! ## What an operation keeps -/

/-- A session in which stores have objects from each other or new ones, and which has spoilt no store but
those that are lost. -/
structure Continues (new : Reference → Object → Prop) (lost : StoreId → Prop) (s t : Session) : Prop where
  wellFormed : t.WellFormed
  held : ∀ {i q o b}, t.place i q = .written o b → (∃ j b', s.place j q = .written o b') ∨ new q o
  faithful : ∀ {j}, ¬ lost j → s.Faithful j → t.Faithful j
  size : s.stores.length ≤ t.stores.length
  store : ∀ {j st'}, j.index < s.stores.length → t.store? j = some st' →
    ∃ st, s.store? j = some st ∧ st'.output.device = st.output.device

namespace Continues

variable {new : Reference → Object → Prop} {lost : StoreId → Prop}

theorem refl (h : s.WellFormed) : Continues new lost s s :=
  ⟨h, fun hp => Or.inl ⟨_, _, hp⟩, fun _ h => h, Nat.le_refl _, fun _ h => ⟨_, h, rfl⟩⟩

theorem trans (h : Continues new lost s t) (h' : Continues new lost t u) : Continues new lost s u where
  wellFormed := h'.wellFormed
  held := fun hp => by
    rcases h'.held hp with ⟨j, b, hp'⟩ | hn
    · exact h.held hp'
    · exact Or.inr hn
  faithful := fun hl hf => h'.faithful hl (h.faithful hl hf)
  size := Nat.le_trans h.size h'.size
  store := fun hj hst => by
    obtain ⟨st', hst', hd'⟩ := h'.store (Nat.lt_of_lt_of_le hj h.size) hst
    obtain ⟨st, hst, hd⟩ := h.store hj hst'
    exact ⟨st, hst, hd'.trans hd⟩

/-- Where nothing new is written and nothing lost, more might have been. -/
theorem mono (h : Continues (fun _ _ => False) (fun _ => False) s t) : Continues new lost s t where
  wellFormed := h.wellFormed
  held := fun hp => (h.held hp).imp_right False.elim
  faithful := fun _ hf => h.faithful id hf
  size := h.size
  store := h.store

theorem of_transfer {scope : StoreId → Prop} {want : StoreId → Reference → Option Object}
    (ht : Transfer scope want s t)
    (hw : ∀ i q o, want i q = some o → (∃ j b, s.place j q = .written o b) ∨ new q o) :
    Continues new lost s t where
  wellFormed := ht.wellFormed
  held := fun {i q o b} hp => by
    rcases ht.place i q with heq | ⟨-, o', b', ho, hp'⟩ | ⟨-, -, hp'⟩
    · exact Or.inl ⟨i, b, heq ▸ hp⟩
    · rw [hp'] at hp
      cases hp
      exact hw i q o ho
    · rw [hp'] at hp
      cases hp
  faithful := fun _ hf => ht.faithful hf
  size := Nat.le_of_eq ht.size.symm
  store := fun {j st'} _ hst => by
    have hd := ht.device j
    rw [hst, Option.map_some] at hd
    obtain ⟨st, hst', heq⟩ := Option.map_eq_some_iff.1 hd.symm
    exact ⟨st, hst', heq.symm⟩

theorem of_fetch {scope : StoreId → Prop} (ht : Transfer scope s.fetching s t) : Continues new lost s t := by
  refine of_transfer ht fun i q o hq => ?_
  obtain ⟨j, b, -, hp⟩ := origin_eq_some (origin_of_fetching hq).2
  exact Or.inl ⟨j, b, hp⟩

theorem of_nothing {scope : StoreId → Prop} (ht : Transfer scope nothing s t) : Continues new lost s t :=
  of_transfer ht fun _ _ _ hq => by cases hq

theorem of_write {scope : StoreId → Prop} (ht : Transfer scope (s.rewriting r o) s t) :
    Continues (fun q o' => q = r ∧ o' = o) lost s t := by
  refine of_transfer ht fun i q o' hq => ?_
  by_cases hr : q = r
  · rw [hr, rewriting_self] at hq
    cases hq
    exact Or.inr ⟨hr, rfl⟩
  · rw [rewriting_of_ne hr] at hq
    obtain ⟨j, b, -, hp⟩ := origin_eq_some (origin_of_fetching hq).2
    exact Or.inl ⟨j, b, hp⟩

theorem of_extends {opened : Option Store} (he : Extends opened s t) : Continues new lost s t where
  wellFormed := he.wellFormed
  held := fun {i q o b} hp => Or.inl ⟨i, b, he.place i q ▸ hp⟩
  faithful := fun _ hf => he.faithful hf
  size := he.size
  store := fun hj hst => by
    rcases he.store hst with hst' | ⟨rfl, -⟩
    · exact ⟨_, hst', rfl⟩
    · exact absurd hj (Nat.lt_irrefl _)

theorem of_moves (hm : Moves s t) : Continues new lost s t where
  wellFormed := hm.wellFormed
  held := fun {i q o b} hp => Or.inl ⟨i, b, hm.place_eq i q ▸ hp⟩
  faithful := fun {j} _ hf q id o b hv hp => by
    have hview : t.bindings.view j = s.bindings.view j := funext (hm.view j)
    rw [hview] at hv ⊢
    rw [hm.place_eq] at hp
    exact hf hv hp
  size := Nat.le_of_eq (congrArg List.length hm.stores.symm)
  store := fun _ hst => ⟨_, (hm.store?_eq _).symm.trans hst, rfl⟩

/-- A store that has lost all its identities holds nothing, and one that has lost none is as before. -/
theorem of_drops {taken : StoreId → Reference → Prop} (hd : Drops taken s t)
    (hl : ∀ j, lost j ∨ (∀ q, taken j q) ∨ ∀ q, ¬ taken j q) : Continues new lost s t where
  wellFormed := hd.wellFormed
  held := fun {i q o b} hp => by
    have hn : ¬ taken i q := fun hq => by
      rw [hd.place_lost hq] at hp
      cases hp
    exact Or.inl ⟨i, b, hd.place hn ▸ hp⟩
  faithful := fun {j} hj hf q id o b hv hp => by
    rcases hl j with h | hall | hnone
    · exact absurd h hj
    · rw [hd.view_lost (hall q)] at hv
      cases hv
    · have hview : t.bindings.view j = s.bindings.view j := funext fun q' => hd.view (hnone q')
      rw [hview] at hv ⊢
      rw [hd.place (hnone q)] at hp
      exact hf hv hp
  size := Nat.le_of_eq hd.size.symm
  store := fun _ hst => hd.store hst

end Continues

/-! ## One call -/

/-- What can be said of every event. -/
structure Accounts (ev : Event Call SessionError Session Answer) : Prop where
  wellFormed : ev.after.WellFormed
  held : ∀ {l : Reference → List Object}, (∀ {i q o b}, ev.before.place i q = .written o b → o ∈ l q) →
    ∀ {i q o b}, ev.after.place i q = .written o b → o ∈ offered ev q (l q)
  faithful : ∀ {j}, deletedFrom? ev ≠ some j → ev.before.Faithful j → ev.after.Faithful j
  size : ev.before.stores.length ≤ ev.after.stores.length
  store : ∀ {j st'}, j.index < ev.before.stores.length → ev.after.store? j = some st' →
    ∃ st, ev.before.store? j = some st ∧ st'.output.device = st.output.device
  created : ∀ {j}, created? ev = some j → j.index < ev.after.stores.length ∧
    ∀ st, ev.after.store? j = some st → st.output.device = .memory

variable {k : Call} {a : Answer} {e : SessionError} {log : Log} {new : Reference → Object → Prop}
variable {lost : StoreId → Prop}

theorem accounts_ok (hok : perform k s = .ok a t)
    (hc : Continues (fun _ _ => False) (fun j => ∃ r, k = .delete r j) s t) (ht : k.target? s = none)
    (hk : ∀ i, created? ⟨s, k, .ok a, t⟩ = some i → i.index < t.stores.length ∧
      ∀ st, t.store? i = some st → st.output.device = .memory) : Accounts (.ofCall perform k s) := by
  rw [Event.ofCall, Operation.outcome_ok hok, Operation.next_ok hok]
  refine ⟨hc.wellFormed, fun {l} hl {i q o b} hp => ?_, fun hn => hc.faithful ?_, hc.size, hc.store, hk _⟩
  · have hsame : ∀ l, offered ⟨s, k, .ok a, t⟩ q l = l := fun l => by
      simp only [offered, ht]
    rw [hsame]
    rcases hc.held hp with ⟨j, b', hp'⟩ | hf
    · exact hl hp'
    · exact hf.elim
  · rintro ⟨r, rfl⟩
    exact hn rfl

/-- A call that creates no store. -/
theorem accounts_quiet (hok : perform k s = .ok a t)
    (hc : Continues (fun _ _ => False) (fun j => ∃ r, k = .delete r j) s t) (ht : k.target? s = none)
    (hk : ∀ device config, k ≠ .createStore device config) : Accounts (.ofCall perform k s) := by
  refine accounts_ok hok hc ht ?_
  intro i hi
  obtain ⟨config, hcall, -⟩ := created?_eq_some.1 hi
  exact absurd hcall (hk _ _)

/-- A call that fails leaves objects behind only if a device was full. -/
theorem accounts_error (he : perform k s = .error e t) (hc : Continues new (fun _ => False) s t)
    (hnew : ∀ q o, new q o → k.target? s = some (q, o) ∧ e = .store .device) :
    Accounts (.ofCall perform k s) := by
  rw [Event.ofCall, Operation.outcome_error he, Operation.next_error he]
  refine ⟨hc.wellFormed, fun {l} hl {i q o b} hp => ?_, fun _ => hc.faithful id, hc.size, hc.store, ?_⟩
  · rcases hc.held hp with ⟨j, b', hp'⟩ | hn
    · have ho : o ∈ l q := hl hp'
      unfold offered
      split
      · rename_i heq
        cases heq
      · split
        · exact List.mem_cons_of_mem _ ho
        · exact ho
      · exact ho
    · obtain ⟨ht, rfl⟩ := hnew q o hn
      simp only [offered, ht, if_true]
      exact List.mem_cons_self
  · intro j hj
    obtain ⟨_, -, hout⟩ := created?_eq_some.1 hj
    cases hout

theorem accounts_failed (he : perform k s = .error e t) (hc : Continues (fun _ _ => False) (fun _ => False) s t) :
    Accounts (.ofCall perform k s) :=
  accounts_error he hc fun _ _ hn => hn.elim

theorem accounts_written (hok : perform k s = .ok a t) (ht : k.target? s = some (r, o))
    (hc : Continues (fun q o' => q = r ∧ o' = o) (fun _ => False) s t)
    (hall : ∀ i, t.place i r ≠ .absent → ∃ b, t.place i r = .written o b) :
    Accounts (.ofCall perform k s) := by
  rw [Event.ofCall, Operation.outcome_ok hok, Operation.next_ok hok]
  refine ⟨hc.wellFormed, fun {l} hl {i q o' b} hp => ?_, fun _ => hc.faithful id, hc.size, hc.store, ?_⟩
  · simp only [offered, ht]
    by_cases hq : q = r
    · rw [if_pos hq]
      have hne : t.place i r ≠ .absent := by simp [← hq, hp]
      obtain ⟨b', hb'⟩ := hall i hne
      rw [hq, hb'] at hp
      cases hp
      exact List.mem_cons_self
    · rw [if_neg hq]
      rcases hc.held hp with ⟨j, b', hp'⟩ | ⟨hr, -⟩
      · exact hl hp'
      · exact absurd hr hq
  · intro j hj
    obtain ⟨_, hcall, -⟩ := created?_eq_some.1 hj
    have hnone : k.target? s = none := by
      rw [show k = _ from hcall]
      rfl
    rw [ht] at hnone
    cases hnone

theorem continues_newReferenceIn (h : s.WellFormed) (places : List StoreId) :
    (∃ t, newReferenceIn places s = .ok ⟨s.bindings.entries.length⟩ t ∧
      Continues (fun _ _ => False) (fun _ => False) s t) ∨
    (∃ e t, newReferenceIn places s = .error e t ∧ Continues (fun _ _ => False) (fun _ => False) s t) := by
  let P : Session → Prop := Continues (fun _ _ => False) (fun _ => False) s
  have hP : ∀ {i t u}, t.WellFormed → P t → Transfer (· = i) t.fetching t u → Settled (· = i) t.fetching u → P u :=
    fun _ hc ht _ => hc.trans (.of_fetch ht)
  have hnew : ∀ {t}, Extends none s t → P t := fun he => .of_extends he
  rcases newReferenceIn_cases hP h hnew places with
    ⟨t, hok, -, hc⟩ | ⟨e, he⟩ | ⟨e, u, i, t, he, -, hc, ht, -⟩
  · exact Or.inl ⟨t, hok, hc⟩
  · exact Or.inr ⟨e, s, he, .refl h⟩
  · exact Or.inr ⟨e, t, he, hc.trans (.of_fetch ht)⟩

/-- A write that fails has changed what stores hold only if there was no more room. -/
theorem continues_write (h : s.WellFormed) (r : Reference) (o : Object) :
    (∃ t, write r o s = .ok () t ∧ Continues (fun q o' => q = r ∧ o' = o) (fun _ => False) s t ∧
      ∀ i, t.place i r ≠ .absent → ∃ b, t.place i r = .written o b) ∨
    (∃ e t, write r o s = .error e t ∧ Continues (fun _ _ => False) (fun _ => False) s t) ∨
    (∃ e t, write r o s = .error e t ∧ Continues (fun q o' => q = r ∧ o' = o) (fun _ => False) s t ∧
      (e = .store (.table .full) ∨ e = .store .device)) := by
  let P : Session → Prop := Continues (fun q o' => q = r ∧ o' = o) (fun _ => False) s
  have hP : ∀ {i t u}, t.WellFormed → P t → t.place i r ≠ .absent → Transfer (· = i) (t.rewriting r o) t u →
      Settled (· = i) (t.rewriting r o) u → P u := fun _ hc _ ht _ => hc.trans (.of_write ht)
  rcases write_cases hP h (.refl h) with
    ⟨t, u, hok, hhalf, hm, -, -, hall⟩ | ⟨e, he⟩ | ⟨e, u, i, t, he, -, hc, ht, hf⟩ | ⟨e, i, t, he, ht⟩
  · exact Or.inl ⟨u, hok, hhalf.keeps.trans (.of_moves hm), hall⟩
  · exact Or.inr (Or.inl ⟨e, s, he, .refl h⟩)
  · exact Or.inr (Or.inr ⟨e, t, he, hc.trans (.of_write ht), hf.imp_right And.left⟩)
  · exact Or.inr (Or.inl ⟨e, t, he, .of_nothing ht⟩)

theorem identityFor_accounts (h : s.WellFormed) (r : Reference) (i : StoreId) :
    Accounts (.ofCall perform (.identityFor r i) s) := by
  rcases identityFor_cases h r i with ⟨id, t, hok, ht, -, -⟩ | ⟨e, he⟩ | ⟨e, t, he, ht, -⟩
  · exact accounts_quiet (Operation.bind_of_ok hok) (.of_fetch ht) rfl (by simp)
  · exact accounts_failed (Operation.bind_of_error he) (.refl h)
  · exact accounts_failed (Operation.bind_of_error he) (.of_fetch ht)

theorem write_accounts (h : s.WellFormed) (r : Reference) (o : Object)
    (hroom : fills (.ofCall perform (.write r o) s) = false) :
    Accounts (.ofCall perform (.write r o) s) := by
  rcases continues_write h r o with ⟨t, hok, hc, hall⟩ | ⟨e, t, he, hc⟩ | ⟨e, t, he, hc, rfl | rfl⟩
  · exact accounts_written (Operation.bind_of_ok hok) rfl hc hall
  · exact accounts_failed (Operation.bind_of_error he) hc
  · exact absurd rfl (not_fills hroom (Operation.bind_of_error he))
  · refine accounts_error (Operation.bind_of_error he) hc ?_
    rintro q o' ⟨rfl, rfl⟩
    exact ⟨rfl, rfl⟩

theorem writeNew_accounts (h : s.WellFormed) (i : StoreId) (o : Object)
    (hroom : fills (.ofCall perform (.writeNew i o) s) = false) :
    Accounts (.ofCall perform (.writeNew i o) s) := by
  let r : Reference := ⟨s.bindings.entries.length⟩
  rcases continues_newReferenceIn h [i] with ⟨t, hok, hc⟩ | ⟨e, t, he, hc⟩
  · rcases continues_write hc.wellFormed r o with ⟨u, hok', hc', hall⟩ | ⟨e, u, he, hc'⟩ | ⟨e, u, he, hc', hf⟩
    · have hnew : writeNew i o s = .ok r u := (Operation.bind_of_ok hok).trans (Operation.bind_of_ok hok')
      exact accounts_written (Operation.bind_of_ok hnew) rfl (hc.mono.trans hc') hall
    · have hnew : writeNew i o s = .error e u := (Operation.bind_of_ok hok).trans (Operation.bind_of_error he)
      exact accounts_failed (Operation.bind_of_error hnew) (hc.trans hc')
    · have hnew : writeNew i o s = .error e u := (Operation.bind_of_ok hok).trans (Operation.bind_of_error he)
      rcases hf with rfl | rfl
      · exact absurd rfl (not_fills hroom (Operation.bind_of_error hnew))
      · refine accounts_error (Operation.bind_of_error hnew) (hc.mono.trans hc') ?_
        rintro q o' ⟨rfl, rfl⟩
        exact ⟨rfl, rfl⟩
  · have hnew : writeNew i o s = .error e t := Operation.bind_of_error he
    exact accounts_failed (Operation.bind_of_error hnew) hc

theorem createStore_accounts (h : s.WellFormed) (device : Device) (config : Config) :
    Accounts (.ofCall perform (.createStore device config) s) := by
  cases hst : Store.create device config with
  | error e =>
      exact accounts_failed (Operation.bind_of_error (createStore_of_error hst)) (.refl h)
  | ok st =>
      obtain ⟨hst', -, hout, -⟩ := Store.create_ok hst
      have hcreate : createStore device config s = openStore st s := createStore_of_ok hst
      rcases openStore_cases h hst' with ⟨t, hok, he, hnew⟩ | hfull
      · refine accounts_ok (Operation.bind_of_ok (hcreate.trans hok)) (.of_extends he) rfl ?_
        intro i hi
        obtain ⟨config', hcall, hans⟩ := created?_eq_some.1 hi
        cases hcall
        cases hans
        have hlt : s.stores.length < t.stores.length := by
          by_contra hle
          have hnone : t.stores[s.stores.length]? = none := List.getElem?_eq_none (Nat.le_of_not_lt hle)
          rw [store?, hnone] at hnew
          cases hnew
        refine ⟨hlt, fun st' hst' => ?_⟩
        rw [hnew] at hst'
        cases hst'
        rw [hout]
      · exact accounts_failed (Operation.bind_of_error (hcreate.trans hfull)) (.refl h)

/-- The step of a run. -/
theorem perform_accounts (h : s.WellFormed) (k : Call)
    (hroom : fills (.ofCall perform k s) = false) : Accounts (.ofCall perform k s) := by
  cases k with
  | openStore st =>
      rcases openStore_cases h st.2.wellFormed with ⟨t, hok, he, -⟩ | hfull
      · exact accounts_quiet (Operation.bind_of_ok hok) (.of_extends he) rfl (by simp)
      · exact accounts_failed (Operation.bind_of_error hfull) (.refl h)
  | createStore device config => exact createStore_accounts h device config
  | newReference =>
      rcases newReference_cases h with ⟨t, hok, he⟩ | hfull
      · exact accounts_quiet (Operation.bind_of_ok hok) (.of_extends he) rfl (by simp)
      · exact accounts_failed (Operation.bind_of_error hfull) (.refl h)
  | newReferenceIn places =>
      rcases continues_newReferenceIn h places with ⟨t, hok, hc⟩ | ⟨e, t, he, hc⟩
      · exact accounts_quiet (Operation.bind_of_ok hok) hc.mono rfl (by simp)
      · exact accounts_failed (Operation.bind_of_error he) hc
  | identityFor r i => exact identityFor_accounts h r i
  | write r o => exact write_accounts h r o hroom
  | writeNew i o => exact writeNew_accounts h i o hroom
  | setCatalog i r =>
      rcases named_cases h Store.setCatalog_live r i with ⟨t, hok, ht, -⟩ | ⟨e, he⟩ | ⟨e, t, he, ht, -⟩
      · exact accounts_quiet (Operation.bind_of_ok hok) (.of_fetch ht) rfl (by simp)
      · exact accounts_failed (Operation.bind_of_error he) (.refl h)
      · exact accounts_failed (Operation.bind_of_error he) (.of_fetch ht)
  | setInfo i r =>
      rcases named_cases h Store.setInfo_live r i with ⟨t, hok, ht, -⟩ | ⟨e, he⟩ | ⟨e, t, he, ht, -⟩
      · exact accounts_quiet (Operation.bind_of_ok hok) (.of_fetch ht) rfl (by simp)
      · exact accounts_failed (Operation.bind_of_error he) (.refl h)
      · exact accounts_failed (Operation.bind_of_error he) (.of_fetch ht)
  | delete r i =>
      rcases delete_cases h r i with ⟨out, t, hok, hd⟩ | ⟨e, he⟩
      · refine accounts_quiet (Operation.bind_of_ok hok) (.of_drops hd fun j => ?_) rfl (by simp)
        by_cases hj : j = i
        · exact Or.inl ⟨r, by rw [hj]⟩
        · exact Or.inr (Or.inr fun q hq => hj hq.1)
      · exact accounts_failed (Operation.bind_of_error he) (.refl h)
  | close i =>
      rcases close_cases h i with ⟨st, t, -, hcl, hd⟩ | ⟨e, he⟩
      · have hl : ∀ j, (∀ _ : Reference, j = i) ∨ ∀ _ : Reference, ¬ j = i := fun j =>
          (em (j = i)).imp (fun h _ => h) fun h _ => h
        cases hst : st.close with
        | ok report =>
            rw [hst] at hcl
            exact accounts_quiet (Operation.bind_of_ok hcl) (.of_drops hd fun j => Or.inr (hl j)) rfl (by simp)
        | error e =>
            rw [hst] at hcl
            exact accounts_failed (Operation.bind_of_error hcl) (.of_drops hd fun j => Or.inr (hl j))
      · exact accounts_failed (Operation.bind_of_error he) (.refl h)
  | register c =>
      have hok : perform (.register c) s = .ok .done (register c s).2 := rfl
      exact accounts_quiet hok (.of_extends (extends_register h c)) rfl (by simp)

/-! ## Runs -/

/-- The invariant of a run. -/
structure Traced (log : Log) (s : Session) : Prop where
  wellFormed : s.WellFormed
  held : ∀ {i q o b}, s.place i q = .written o b → o ∈ contenders log q
  faithful : ∀ {i}, (∀ ev ∈ log, deletedFrom? ev ≠ some i) → s.Faithful i
  created : ∀ {i ev}, ev ∈ log → created? ev = some i →
    i.index < s.stores.length ∧ ∀ st, s.store? i = some st → st.output.device = .memory

theorem Traced.step {ev : Event Call SessionError Session Answer} (h : Traced log ev.before)
    (ha : Accounts ev) : Traced (ev :: log) ev.after where
  wellFormed := ha.wellFormed
  held := fun hp => ha.held (fun hp => h.held hp) hp
  faithful := fun hn => ha.faithful (hn ev List.mem_cons_self)
    (h.faithful fun ev' hev => hn ev' (List.mem_cons_of_mem _ hev))
  created := fun hev hc => by
    rcases List.mem_cons.1 hev with rfl | hev
    · exact ha.created hc
    · obtain ⟨hlt, hmem⟩ := h.created hev hc
      refine ⟨Nat.lt_of_lt_of_le hlt ha.size, fun st' hst' => ?_⟩
      obtain ⟨st, hst, hd⟩ := ha.store hlt hst'
      exact hd.trans (hmem st hst)

theorem traced_ofFilters (filters : Registry) : Traced [] (ofFilters filters) where
  wellFormed := wellFormed_ofFilters filters
  held := fun hp => by cases hp
  faithful := fun _ _ _ _ _ hv _ => by cases hv
  created := fun hev _ => (List.not_mem_nil hev).elim

theorem traced_run {filters : Registry} (hrun : Runs perform (ofFilters filters) log s)
    (hroom : ∀ ev ∈ log, fills ev = false) : Traced log s := by
  induction hrun with
  | none => exact traced_ofFilters filters
  | call _ k ih =>
      have h := ih fun ev hev => hroom ev (List.mem_cons_of_mem _ hev)
      exact h.step (perform_accounts h.wellFormed k (hroom _ List.mem_cons_self))

end PdfStore.Session
