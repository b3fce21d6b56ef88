import PdfStore.Proofs.Agreement

/-!
# Bindings and sources

What can be said of the bindings of a session when calls may fail: where a reference is bound there is an
open store with its identity in use, and as long as no table is full, all objects that stores hold for a
reference are that of its source. A write that fails may bind references whose objects do not come along.
-/

namespace PdfStore.Session

variable {s t u : Session} {i j : StoreId} {r q : Reference} {id : ObjectId} {o : Object} {b : Bytes}
variable {scope : StoreId → Prop} {want : StoreId → Reference → Option Object}
variable {p : Reference → Prop} {failed : Bool}

/-- The stores that hold an object for a reference hold that of its source. -/
def Unanimous (s : Session) (q : Reference) : Prop := ∀ i o b, s.place i q = .written o b → s.origin q = some o

theorem Unanimous.sourced (h : s.Unanimous q) : s.Sourced q := by
  intro hn i o b hp
  have ho := h i o b hp
  rw [origin, hn] at ho
  cases ho

/-- A reference whose objects have all been there before has none that differs from its source. -/
theorem Unanimous.of_places (h : s.Unanimous q) (ht : t.WellFormed) (hsource : t.Sourced q)
    (hp : ∀ i o b, t.place i q = .written o b → s.place i q = .written o b) : t.Unanimous q := by
  intro i o b hw
  cases hq : t.bindings.source q with
  | none => exact absurd hw (hsource hq i o b)
  | some j =>
      obtain ⟨o', b', hw'⟩ := ht.source hq
      have ho := h i o b (hp i o b hw)
      have ho' := h j o' b' (hp j o' b' hw')
      rw [ho] at ho'
      cases ho'
      exact origin_of_source hq hw'

/-! ## What an operation brings -/

/-- A session in which references have been bound, those that satisfy `p` along with the objects of their
sources. If the operation has failed, they have been bound without them. -/
structure Brings (failed : Bool) (p : Reference → Prop) (s t : Session) : Prop where
  wellFormed : t.WellFormed
  memory : s.InMemory → t.InMemory
  origin : ∀ {q}, p q → s.Unanimous q → t.origin q = s.origin q
  kept : ∀ {i q}, p q → s.place i q ≠ .absent → t.place i q = s.place i q
  gained : ∀ {i q}, p q → s.Unanimous q → s.place i q = .absent → t.place i q ≠ .absent →
    (t.place i q).object? = if failed then none else s.origin q

namespace Brings

theorem refl (h : s.WellFormed) : Brings failed p s s :=
  ⟨h, fun h => h, fun _ _ => rfl, fun _ _ => rfl, fun _ _ h hn => absurd h hn⟩

theorem unanimous (h : Brings failed p s t) (hq : p q) (hs : s.Unanimous q) : t.Unanimous q := by
  intro i o b hw
  rw [h.origin hq hs]
  by_cases hp : s.place i q = .absent
  · have hgained := h.gained hq hs hp (by simp [hw])
    rw [hw] at hgained
    cases failed with
    | false => exact hgained.symm
    | true => cases hgained
  · rw [h.kept hq hp] at hw
    exact hs i o b hw

theorem trans (h : Brings failed p s t) (h' : Brings failed p t u) : Brings failed p s u where
  wellFormed := h'.wellFormed
  memory := fun hm => h'.memory (h.memory hm)
  origin := fun hq hs => (h'.origin hq (h.unanimous hq hs)).trans (h.origin hq hs)
  kept := fun {i q} hq hp => by
    have heq := h.kept hq hp
    rw [h'.kept hq (heq ▸ hp), heq]
  gained := fun {i q} hq hs hp hp' => by
    by_cases hbound : t.place i q = .absent
    · rw [h'.gained hq (h.unanimous hq hs) hbound hp', h.origin hq hs]
    · rw [h'.kept hq hbound]
      exact h.gained hq hs hp hbound

theorem of_transfer (h : s.WellFormed) (ht : Transfer scope want s t) (hset : Settled scope want t)
    (hw : ∀ i q, p q → want i q = s.fetching i q) : Brings false p s t where
  wellFormed := ht.wellFormed
  memory := fun hm => hm.transfer ht
  origin := fun {q} hq _ => ht.origin h fun i _ hp => by
    obtain ⟨id, hv⟩ := view_of_place hp
    rw [hw i q hq, fetching_bound hv]
  kept := fun {i q} hq hp => by
    obtain ⟨id, hv⟩ := view_of_place hp
    rcases ht.place i q with heq | ⟨-, o, b, ho, -⟩ | ⟨-, habs, -⟩
    · exact heq
    · rw [hw i q hq, fetching_bound hv] at ho
      cases ho
    · exact absurd habs hp
  gained := fun {i q} hq _ hp hp' => by
    have hwant : want i q = s.origin q := (hw i q hq).trans (fetching_unbound (h.place_eq_absent.1 hp))
    rcases ht.place i q with heq | ⟨-, o, b, ho, hw'⟩ | ⟨hi, -, hpend⟩
    · exact absurd (heq.trans hp) hp'
    · rw [hw', if_neg Bool.false_ne_true, ← hwant, ho]
      rfl
    · -- Bound and not written: nothing was to be taken along.
      cases ho : s.origin q with
      | none => rw [hpend]; rfl
      | some o =>
          obtain ⟨b, hb⟩ := hset hi hp' (hwant.trans ho)
          rw [hpend] at hb
          cases hb

theorem of_nothing (h : s.WellFormed) (ht : Transfer scope nothing s t) : Brings true p s t where
  wellFormed := ht.wellFormed
  memory := fun hm => hm.transfer ht
  origin := fun _ _ => ht.origin h fun _ _ _ => rfl
  kept := fun {i q} _ hp => by
    rcases ht.place i q with heq | ⟨-, o, b, ho, -⟩ | ⟨-, habs, -⟩
    · exact heq
    · cases ho
    · exact absurd habs hp
  gained := fun {i q} _ _ hp hp' => by
    rcases ht.place i q with heq | ⟨-, o, b, ho, -⟩ | ⟨-, -, hpend⟩
    · exact absurd (heq.trans hp) hp'
    · cases ho
    · rw [hpend]
      rfl

/-- A reference that has no object anywhere is bound as after a failure. -/
theorem of_pending (h : s.WellFormed) (hs : Sets i r id .pending s t) (hv : s.bindings.view i r = none)
    (ho : s.origin r = none) : Brings failed p s t := by
  have hb : Brings true p s t := .of_nothing h (hs.transfer_bind rfl hv)
  refine ⟨hb.wellFormed, hb.memory, hb.origin, hb.kept, fun {j q} _ _ hp hp' => ?_⟩
  rw [hs.place] at hp' ⊢
  split
  · rename_i heq
    rw [heq.2, ho]
    cases failed <;> rfl
  · rename_i hne
    rw [if_neg hne] at hp'
    exact absurd hp hp'

/-- Nothing is bound, and no source moves but to another store that has the same object. -/
theorem of_same (ht : t.WellFormed) (hm : s.InMemory → t.InMemory) (hp : ∀ i q, t.place i q = s.place i q)
    (hsource : ∀ q, t.bindings.source q = s.bindings.source q ∨ t.Sourced q) : Brings failed p s t where
  wellFormed := ht
  memory := hm
  origin := fun {q} _ hs => by
    rcases hsource q with heq | hsourced
    · rw [Session.origin, Session.origin, heq]
      cases s.bindings.source q with
      | none => rfl
      | some i => rw [Option.bind_some, Option.bind_some, hp]
    · have hu : t.Unanimous q := hs.of_places ht hsourced fun i o b hw => (hp i q).symm.trans hw
      cases ho : s.origin q with
      | some o =>
          obtain ⟨i, b, -, hw⟩ := origin_eq_some ho
          exact hu i o b ((hp i q).trans hw)
      | none =>
          cases ho' : t.origin q with
          | none => rfl
          | some o =>
              obtain ⟨i, b, -, hw⟩ := origin_eq_some ho'
              rw [hs i o b ((hp i q).symm.trans hw)] at ho
              cases ho
  kept := fun _ _ => hp _ _
  gained := fun _ _ habs hp' => absurd ((hp _ _).trans habs) hp'

theorem moves (hm : Moves s t) : Brings failed p s t :=
  of_same hm.wellFormed (fun h => h.moves hm) hm.place_eq hm.source

theorem of_extends {new : Option Store} (he : Extends new s t)
    (hn : ∀ st, new = some st → st.output.device = .memory) : Brings failed p s t :=
  of_same he.wellFormed (fun h => h.of_extends he hn) he.place fun q => Or.inl (he.source q)

end Brings

/-! ## One call -/

def failsToWrite (ev : Event Call SessionError Session Answer) : Bool := ev.call.isWrite && !ev.outcome.isOk

/-- What can become of the bindings of a session in memory. -/
inductive Course (ev : Event Call SessionError Session Answer) : Prop
  | brings (h : Brings (failsToWrite ev) (fun _ => True) ev.before ev.after) (hw : written? ev = none)
  | drops {lost : StoreId → Reference → Prop} (h : Drops lost ev.before ev.after) (hw : written? ev = none)
  | writes {r : Reference} {o : Object} (h : Brings false (· ≠ r) ev.before ev.after)
      (hr : ev.after.Sourced r)
      (hall : ∀ i, ev.after.place i r ≠ .absent → ∃ b, ev.after.place i r = .written o b)
      (hw : written? ev = some (r, o))
  | breaks (ht : ev.after.WellFormed) (hm : ev.after.InMemory) (hf : fills ev = true)

variable {k : Call} {a : Answer} {e : SessionError} {log : Log} {α : Type} {x : Operation SessionError Session α}

theorem course_ok (hok : perform k s = .ok a t) (h : Course ⟨s, k, .ok a, t⟩) : Course (.ofCall perform k s) := by
  rw [Event.ofCall, Operation.outcome_ok hok, Operation.next_ok hok]
  exact h

theorem course_error (he : perform k s = .error e t) (h : Brings k.isWrite (fun _ => True) s t) :
    Course (.ofCall perform k s) := by
  rw [Event.ofCall, Operation.outcome_error he, Operation.next_error he]
  refine .brings ?_ (by cases k <;> rfl)
  rw [failsToWrite]
  simpa [Except.isOk, Except.toBool] using h

theorem course_full (he : perform k s = .error (.store (.table .full)) t) (ht : t.WellFormed) (hm : t.InMemory) :
    Course (.ofCall perform k s) := by
  rw [Event.ofCall, Operation.outcome_error he, Operation.next_error he]
  exact .breaks ht hm rfl

/-- An operation that brings all objects along, changes nothing, or finds no room. -/
inductive Supplies (x : Operation SessionError Session α) (s : Session) : Prop
  | done {a : α} {t : Session} (hok : x s = .ok a t) (h : Brings false (fun _ => True) s t)
  | refused {e : SessionError} (he : x s = .error e s)
  | full {t : Session} (he : x s = .error (.store (.table .full)) t) (ht : t.WellFormed) (hm : t.InMemory)

theorem Supplies.course {f : α → Answer} (hx : Supplies x s) (h : s.WellFormed)
    (hk : perform k = do return f (← x)) (hw : k.isWrite = false) : Course (.ofCall perform k s) := by
  cases hx with
  | @done a t hok hb =>
      have hok' : perform k s = .ok (f a) t := hk ▸ Operation.bind_of_ok hok
      refine course_ok hok' (.brings ?_ ?_)
      · rw [failsToWrite, hw]
        exact hb
      · cases k <;> first | rfl | cases hw
  | refused he => exact course_error (hk ▸ Operation.bind_of_error he) (.refl h)
  | full he ht hm => exact course_full (hk ▸ Operation.bind_of_error he) ht hm

theorem supplies_openStore {st : Store} (h : s.WellFormed) (hst : st.WellFormed) (hd : st.output.device = .memory) :
    Supplies (openStore st) s := by
  rcases openStore_cases h hst with ⟨t, hok, he, -⟩ | hfull
  · refine .done hok (.of_extends he ?_)
    rintro _ ⟨⟩
    exact hd
  · exact .refused hfull

theorem supplies_createStore {device : Device} {config : Config} (h : s.WellFormed) (hd : device = .memory) :
    Supplies (createStore device config) s := by
  cases hst : Store.create device config with
  | error e => exact .refused (createStore_of_error hst)
  | ok st =>
      obtain ⟨hwf, -, hout, -⟩ := Store.create_ok hst
      have hcreate : createStore device config s = openStore st s := createStore_of_ok hst
      cases supplies_openStore h hwf (by rw [hout, hd]) with
      | done hok hb => exact .done (hcreate.trans hok) hb
      | refused he => exact .refused (hcreate.trans he)
      | full he ht hm => exact .full (hcreate.trans he) ht hm

theorem supplies_newReference (h : s.WellFormed) : Supplies newReference s := by
  rcases newReference_cases h with ⟨t, hok, he⟩ | hfull
  · exact .done hok (.of_extends he (by simp))
  · exact .refused hfull

theorem supplies_newReferenceIn (h : s.WellFormed) (hm : s.InMemory) (places : List StoreId) :
    Supplies (newReferenceIn places) s := by
  let P : Session → Prop := Brings false (fun _ => True) s
  have hP : ∀ {i t u}, t.WellFormed → P t → Transfer (· = i) t.fetching t u → Settled (· = i) t.fetching u → P u :=
    fun hwf hb ht hset => hb.trans (.of_transfer hwf ht hset fun _ _ _ => rfl)
  have hnew : ∀ {t}, Extends none s t → P t := fun he => .of_extends he (by simp)
  rcases newReferenceIn_cases hP h hnew places with ⟨t, hok, -, hb⟩ | ⟨e, he⟩ | ⟨e, u, i, t, he, -, hb, ht, hf⟩
  · exact .done hok hb
  · exact .refused he
  · have hmem := hb.memory hm
    rw [full_of_inMemory hmem hf] at he
    exact .full he ht.wellFormed (hmem.transfer ht)

theorem supplies_of_fetch (h : s.WellFormed) (hm : s.InMemory)
    (hx : (∃ a t, x s = .ok a t ∧ Transfer (· = i) s.fetching s t ∧ Settled (· = i) s.fetching t) ∨
      (∃ e, x s = .error e s) ∨ ∃ e t, x s = .error e t ∧ Transfer (· = i) s.fetching s t ∧ s.Full i e) :
    Supplies x s := by
  rcases hx with ⟨a, t, hok, ht, hset⟩ | ⟨e, he⟩ | ⟨e, t, he, ht, hf⟩
  · exact .done hok (.of_transfer h ht hset fun _ _ _ => rfl)
  · exact .refused he
  · rw [full_of_inMemory hm hf] at he
    exact .full he ht.wellFormed (hm.transfer ht)

theorem supplies_identityFor (h : s.WellFormed) (hm : s.InMemory) (r : Reference) (i : StoreId) :
    Supplies (identityFor r i) s :=
  supplies_of_fetch h hm ((identityFor_cases h r i).imp_left fun ⟨id, t, hok, ht, hset, _⟩ => ⟨id, t, hok, ht, hset⟩)

theorem supplies_named {x : ObjectId → Operation StoreError Store Unit} (h : s.WellFormed) (hm : s.InMemory)
    (hx : ∀ {st id}, st.WellFormed → st.standing id ≠ .absent →
      ∃ st', x id st = .ok () st' ∧ st.Becomes id (st.standing id) st') (r : Reference) (i : StoreId) :
    Supplies (do
      let id ← identityFor r i
      onStore i (x id)) s :=
  supplies_of_fetch h hm ((named_cases h hx r i).imp_left fun ⟨t, hok, ht, hset⟩ => ⟨(), t, hok, ht, hset⟩)

/-- A write gives its reference one object everywhere. If it fails, it may have bound references. -/
theorem brings_write (h : s.WellFormed) (hm : s.InMemory) (r : Reference) (o : Object) :
    (∃ t, write r o s = .ok () t ∧ Brings false (· ≠ r) s t ∧ t.Sourced r ∧
      ∀ i, t.place i r ≠ .absent → ∃ b, t.place i r = .written o b) ∨
    (∃ e t, write r o s = .error e t ∧ Brings true (fun _ => True) s t) ∨
    (∃ t, write r o s = .error (.store (.table .full)) t ∧ t.WellFormed ∧ t.InMemory) := by
  let P : Session → Prop := Brings false (· ≠ r) s
  have hP : ∀ {i t u}, t.WellFormed → P t → t.place i r ≠ .absent → Transfer (· = i) (t.rewriting r o) t u →
      Settled (· = i) (t.rewriting r o) u → P u := fun hwf hb _ ht hset =>
    hb.trans (.of_transfer hwf ht hset fun _ _ hq => rewriting_of_ne hq)
  rcases write_cases hP h (.refl h) with
    ⟨t, u, hok, hhalf, hmoves, hr, -, hall⟩ | ⟨e, he⟩ | ⟨e, u, i, t, he, -, hb, ht, hf⟩ | ⟨e, i, t, he, ht⟩
  · exact Or.inl ⟨u, hok, hhalf.keeps.trans (.moves hmoves), hr, hall⟩
  · exact Or.inr (Or.inl ⟨e, s, he, .refl h⟩)
  · have hmem := hb.memory hm
    rw [full_of_inMemory hmem hf] at he
    exact Or.inr (Or.inr ⟨t, he, ht.wellFormed, hmem.transfer ht⟩)
  · exact Or.inr (Or.inl ⟨e, t, he, .of_nothing h ht⟩)

theorem write_course (h : s.WellFormed) (hm : s.InMemory) (r : Reference) (o : Object) :
    Course (.ofCall perform (.write r o) s) := by
  rcases brings_write h hm r o with ⟨t, hok, hb, hr, hall⟩ | ⟨e, t, he, hb⟩ | ⟨t, he, ht, hm⟩
  · exact course_ok (Operation.bind_of_ok hok) (.writes hb hr hall rfl)
  · exact course_error (Operation.bind_of_error he) hb
  · exact course_full (Operation.bind_of_error he) ht hm

/-- The new reference has been bound before its object is written. -/
theorem writeNew_course (h : s.WellFormed) (hm : s.InMemory) (i : StoreId) (o : Object) :
    Course (.ofCall perform (.writeNew i o) s) := by
  rcases newReferenceIn_one h i with ⟨id, t, u, hmade, hbind, hnew⟩ | ⟨-, e, he⟩ | ⟨t, hmade, he⟩
  · have hext := extends_of_newReference h hmade
    obtain ⟨-, hview, horigin⟩ := unbound_of_newReference hmade
    have hsets := sets_of_bindInto hext.wellFormed (hview i) hbind
    have hbound : ∀ {failed p}, Brings failed p s u := fun {failed p} =>
      Brings.trans (.of_extends hext (by simp)) (.of_pending hext.wellFormed hsets (hview i) horigin)
    have hb : Brings false (fun _ => True) s u := hbound
    rcases brings_write hsets.wellFormed (hb.memory hm) ⟨s.bindings.entries.length⟩ o with
      ⟨v, hok, hb, hr, hall⟩ | ⟨e, v, he, hb⟩ | ⟨v, he, hv, hm⟩
    · exact course_ok (Operation.bind_of_ok ((Operation.bind_of_ok hnew).trans (Operation.bind_of_ok hok)))
        (.writes (hbound.trans hb) hr hall rfl)
    · exact course_error (Operation.bind_of_error ((Operation.bind_of_ok hnew).trans (Operation.bind_of_error he)))
        (hbound.trans hb)
    · exact course_full (Operation.bind_of_error ((Operation.bind_of_ok hnew).trans (Operation.bind_of_error he)))
        hv hm
  · exact course_error (Operation.bind_of_error (Operation.bind_of_error he)) (.refl h)
  · have hext := extends_of_newReference h hmade
    exact course_full (Operation.bind_of_error (Operation.bind_of_error he)) hext.wellFormed
      (hm.of_extends hext (by simp))

/-- The step of a run. -/
theorem perform_course (h : s.WellFormed) (hm : s.InMemory) (k : Call) (hk : k.inMemory = true) :
    Course (.ofCall perform k s) := by
  cases k with
  | openStore st =>
      exact (supplies_openStore h st.2.wellFormed (of_decide_eq_true hk)).course h rfl rfl
  | createStore device config => exact (supplies_createStore h (of_decide_eq_true hk)).course h rfl rfl
  | newReference => exact (supplies_newReference h).course h rfl rfl
  | newReferenceIn places => exact (supplies_newReferenceIn h hm places).course h rfl rfl
  | identityFor r i => exact (supplies_identityFor h hm r i).course h rfl rfl
  | write r o => exact write_course h hm r o
  | writeNew i o => exact writeNew_course h hm i o
  | setCatalog i r => exact (supplies_named h hm Store.setCatalog_live r i).course h rfl rfl
  | setInfo i r => exact (supplies_named h hm Store.setInfo_live r i).course h rfl rfl
  | delete r i =>
      rcases delete_cases h r i with ⟨out, t, hok, hd⟩ | ⟨e, he⟩
      · exact course_ok (Operation.bind_of_ok hok) (.drops hd rfl)
      · exact course_error (Operation.bind_of_error he) (.refl h)
  | close i =>
      rcases close_cases h i with ⟨st, t, -, hcl, hd⟩ | ⟨e, he⟩
      · cases hst : st.close with
        | ok report =>
            rw [hst] at hcl
            exact course_ok (Operation.bind_of_ok hcl) (.drops hd rfl)
        | error e =>
            rw [hst] at hcl
            have he : perform (.close i) s = .error (.store e) t := Operation.bind_of_error hcl
            rw [Event.ofCall, Operation.outcome_error he, Operation.next_error he]
            exact .drops hd rfl
      · exact course_error (Operation.bind_of_error he) (.refl h)
  | register c =>
      have hok : perform (.register c) s = .ok .done (register c s).2 := rfl
      exact course_ok hok (.brings (.of_extends (extends_register h c) (by simp)) rfl)

/-! ## Runs -/

variable {ev : Event Call SessionError Session Answer} {filters : Registry}

theorem Course.wellFormed (h : Course ev) : ev.after.WellFormed := by
  cases h with
  | brings h _ => exact h.wellFormed
  | drops h _ => exact h.wellFormed
  | writes h _ _ _ => exact h.wellFormed
  | breaks ht _ _ => exact ht

theorem Course.memory (h : Course ev) (hm : ev.before.InMemory) : ev.after.InMemory := by
  cases h with
  | brings h _ => exact h.memory hm
  | drops h _ => exact hm.drops h
  | writes h _ _ _ => exact h.memory hm
  | breaks _ hm _ => exact hm

theorem unanimous_of_written (ht : t.WellFormed) (hr : t.Sourced r)
    (hall : ∀ i, t.place i r ≠ .absent → ∃ b, t.place i r = .written o b) : t.Unanimous r := by
  have hsame : ∀ i o' b, t.place i r = .written o' b → o' = o := by
    intro i o' b hw
    obtain ⟨b', hb⟩ := hall i (by simp [hw])
    rw [hw] at hb
    cases hb
    rfl
  intro i o' b hw
  cases hsource : t.bindings.source r with
  | none => exact absurd hw (hr hsource i o' b)
  | some j =>
      obtain ⟨o₁, b₁, hw₁⟩ := ht.source hsource
      rw [origin_of_source hsource hw₁, hsame j o₁ b₁ hw₁, hsame i o' b hw]

theorem Drops.places {lost : StoreId → Reference → Prop} (h : Drops lost s t) (hw : t.place i q = .written o b) :
    s.place i q = .written o b := by
  have hl : ¬ lost i q := fun hl => by
    rw [h.place_lost hl] at hw
    cases hw
  exact (h.place hl).symm.trans hw

theorem Drops.unanimous {lost : StoreId → Reference → Prop} (h : Drops lost s t) (hs : s.Unanimous q) :
    t.Unanimous q := by
  refine hs.of_places h.wellFormed ?_ fun i o b hw => h.places hw
  rcases h.source q with heq | hsourced
  · exact fun hn i o b hw => hs.sourced (heq ▸ hn) i o b (h.places hw)
  · exact hsourced

theorem Course.unanimous (h : Course ev) (hroom : fills ev = false) (hs : ∀ q, ev.before.Unanimous q)
    (q : Reference) : ev.after.Unanimous q := by
  cases h with
  | brings h _ => exact h.unanimous trivial (hs q)
  | drops h _ => exact h.unanimous (hs q)
  | @writes r o h hr hall _ =>
      by_cases hq : q = r
      · exact hq ▸ unanimous_of_written h.wellFormed hr hall
      · exact h.unanimous hq (hs q)
  | breaks _ _ hf =>
      rw [hroom] at hf
      cases hf

theorem wellFormed_run (hrun : Runs perform (ofFilters filters) log s) (hmem : ∀ ev ∈ log, ev.call.inMemory) :
    s.WellFormed ∧ s.InMemory := by
  induction hrun with
  | none => exact ⟨wellFormed_ofFilters filters, fun _ _ hst => by cases hst⟩
  | call _ k ih =>
      obtain ⟨h, hm⟩ := ih fun ev hev => hmem ev (List.mem_cons_of_mem _ hev)
      have hc := perform_course h hm k (hmem _ List.mem_cons_self)
      exact ⟨hc.wellFormed, hc.memory hm⟩

theorem unanimous_run (hrun : Runs perform (ofFilters filters) log s) (hmem : ∀ ev ∈ log, ev.call.inMemory)
    (hroom : ∀ ev ∈ log, fills ev = false) : ∀ q, s.Unanimous q := by
  induction hrun with
  | none => exact fun q i o b hw => by cases hw
  | call hrun k ih =>
      have hmem' := fun ev hev => hmem ev (List.mem_cons_of_mem _ hev)
      obtain ⟨h, hm⟩ := wellFormed_run hrun hmem'
      have hc := perform_course h hm k (hmem _ List.mem_cons_self)
      exact hc.unanimous (hroom _ List.mem_cons_self) (ih hmem' fun ev hev => hroom ev (List.mem_cons_of_mem _ hev))

/-- References, stores and tables as they belong together. -/
structure Consistent (s : Session) : Prop where
  live : ∀ {i r id}, s.bindings.view i r = some id →
    ∃ st slot, s.store? i = some st ∧ st.table.validate id = .ok slot
  distinct : ∀ {i r q id}, s.bindings.view i r = some id → s.bindings.view i q = some id → r = q
  source : ∀ {r i}, s.bindings.source r = some i →
    ∃ st id o, s.store? i = some st ∧ s.bindings.view i r = some id ∧ st.resolve id = .ok o
  unwritten : ∀ {r i id}, s.bindings.source r = none → s.bindings.view i r = some id →
    ∃ st, s.store? i = some st ∧ st.resolve id = .error (.notWritten id)

/-- Whatever calls have been made, and whether or not they have failed: while no table is full, references are
bound to open stores, each under an identity of its own that is in use, and exactly those with a source have
objects, which their sources hold. -/
theorem consistent_of_run (hrun : Runs perform (ofFilters filters) log s)
    (hmem : ∀ ev ∈ log, ev.call.inMemory) (hroom : ∀ ev ∈ log, fills ev = false) : s.Consistent := by
  have h := (wellFormed_run hrun hmem).1
  constructor
  case live =>
    intro i r id hv
    obtain ⟨st, hst⟩ := store_of_place (h.bound hv)
    obtain ⟨slot, hslot⟩ := Store.validate_of_standing (place_of_view hst hv ▸ h.bound hv)
    exact ⟨st, slot, hst, hslot⟩
  case distinct => exact h.distinct
  case source =>
    intro r i hr
    obtain ⟨o, b, hw⟩ := h.source hr
    have hne : s.place i r ≠ .absent := by simp [hw]
    obtain ⟨id, hv⟩ := view_of_place hne
    obtain ⟨st, hst⟩ := store_of_place hne
    exact ⟨st, id, o, hst, hv, Store.resolve_written ((place_of_view hst hv).symm.trans hw)⟩
  case unwritten =>
    intro r i id hr hv
    obtain ⟨st, hst⟩ := store_of_place (h.bound hv)
    refine ⟨st, hst, ?_⟩
    cases hp : s.place i r with
    | absent => exact absurd hp (h.bound hv)
    | pending => exact Store.resolve_pending ((place_of_view hst hv).symm.trans hp)
    | written o b => exact absurd hp ((unanimous_run hrun hmem hroom r).sourced hr i o b)

/-- A reference that a failed write has bound to a second store, and that has then been deleted where it had
its object. -/
theorem consistent_of_failed_write : ∃ log s, Runs perform (ofFilters .standard) log s ∧
    log.map Event.call = [.delete ⟨0⟩ ⟨0⟩,
      .write ⟨1⟩ (.array [.indirect ⟨0⟩, .real (Float.ofBits 0x7ff8000000000000)]), .newReferenceIn [⟨1⟩],
      .writeNew ⟨0⟩ (.boolean true), .createStore .memory ⟨"1.4", false, 2, 2⟩,
      .createStore .memory ⟨"1.4", false, 2, 2⟩] ∧
    (∀ ev ∈ log, ev.call.inMemory) ∧ (∀ ev ∈ log, fills ev = false) ∧ (log.map (·.outcome.isOk)).count false = 1 ∧
    s.bindings.source ⟨0⟩ = none ∧ s.bindings.view ⟨1⟩ ⟨0⟩ = some ⟨2, 0⟩ ∧
    ∃ st, s.store? ⟨1⟩ = some st ∧ st.resolve ⟨2, 0⟩ = .error (.notWritten ⟨2, 0⟩) := by
  let calls : List Call := [.createStore .memory ⟨"1.4", false, 2, 2⟩, .createStore .memory ⟨"1.4", false, 2, 2⟩,
    .writeNew ⟨0⟩ (.boolean true), .newReferenceIn [⟨1⟩],
    .write ⟨1⟩ (.array [.indirect ⟨0⟩, .real (Float.ofBits 0x7ff8000000000000)]), .delete ⟨0⟩ ⟨0⟩]
  have hrun := runs_events perform calls (ofFilters .standard)
  have hmem : ∀ ev ∈ Operation.events perform calls (ofFilters .standard), ev.call.inMemory := by
    decide +kernel
  have hroom : ∀ ev ∈ Operation.events perform calls (ofFilters .standard), fills ev = false := by
    decide +kernel
  have hfailed : ((Operation.events perform calls (ofFilters .standard)).map (·.outcome.isOk)).count false = 1 := by
    decide +kernel
  have hsource : (Operation.after perform calls (ofFilters .standard)).bindings.source ⟨0⟩ = none := by
    decide +kernel
  have hview : (Operation.after perform calls (ofFilters .standard)).bindings.view ⟨1⟩ ⟨0⟩ = some ⟨2, 0⟩ := by
    decide +kernel
  exact ⟨_, _, hrun, Operation.map_call_events perform calls _, hmem, hroom, hfailed, hsource, hview,
    (consistent_of_run hrun hmem hroom).unwritten hsource hview⟩

end PdfStore.Session
