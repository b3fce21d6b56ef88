import PdfStore.Proofs.Following
import PdfStore.Proofs.Sources

/-!
# References whose objects have not come along

A reference that is bound to another store brings its object there, unless it is bound by a write that fails:
then the object stays behind, and comes neither when the identity of the reference is asked for again nor when
another object that refers to it is written. Only a write to the reference itself makes up for it.
-/

namespace PdfStore.Session

variable {s t : Session} {i j : StoreId} {r : Reference} {id : ObjectId} {o : Object}
variable {p : Reference → Prop} {ev : Event Call SessionError Session Answer} {log : Log} {filters : Registry}

/-! ## Reading a log -/

/-- Whether a reference has been bound to a store by a write that failed, and has not been written since. -/
def stranded : Log → StoreId → Reference → Bool
  | [], _, _ => false
  | ev :: log, i, r =>
    if (ev.after.bindings.view i r).isNone || (written? ev).any (·.1 = r) then false
    else if (ev.before.bindings.view i r).isNone then failsToWrite ev
    else stranded log i r

theorem stranded_unbound (h : ev.after.bindings.view i r = none) : stranded (ev :: log) i r = false := by
  simp [stranded, h]

theorem stranded_written (h : written? ev = some (r, o)) : stranded (ev :: log) i r = false := by
  simp [stranded, h]

theorem stranded_bound (h : ev.after.bindings.view i r = some id) (hw : ∀ o, written? ev ≠ some (r, o)) :
    stranded (ev :: log) i r =
      if (ev.before.bindings.view i r).isNone then failsToWrite ev else stranded log i r := by
  have hwritten : (written? ev).any (·.1 = r) = false := by
    cases hq : written? ev with
    | none => rfl
    | some w =>
        have hne : w.1 ≠ r := fun heq => hw w.2 (heq ▸ hq)
        simpa using hne
  rw [stranded, h, hwritten]
  rfl

theorem failsToWrite_of_written {w : Reference × Object} (h : written? ev = some w) : failsToWrite ev = false := by
  unfold written? at h
  split at h
  · simp_all [failsToWrite, Except.isOk, Except.toBool]
  · simp_all [failsToWrite, Except.isOk, Except.toBool]
  · cases h

/-! ## What the log tells -/

/-- Where a reference is stranded it has no object, and elsewhere it has the one of its source. -/
structure Tells (stranded : Bool) (i : StoreId) (r : Reference) (s : Session) : Prop where
  pending : stranded = true → s.place i r = .pending
  complete : stranded = false → ∀ o, s.origin r = some o → s.place i r ≠ .pending

theorem pending_of_object? {x : Standing} (hx : x ≠ .absent) (ho : x.object? = none) : x = .pending := by
  cases x with
  | absent => exact absurd rfl hx
  | pending => rfl
  | written o b => cases ho

theorem Tells.unbound (ht : t.bindings.view i r = none) : Tells false i r t where
  pending := fun h => by cases h
  complete := fun _ _ _ => by simp [place_unbound ht]

theorem Tells.brings {failed x : Bool} (h : Tells x i r s) (hb : Brings failed p s t) (hwf : s.WellFormed)
    (hp : p r) (hs : s.Unanimous r) (hv : t.bindings.view i r = some id) :
    Tells (if (s.bindings.view i r).isNone then failed else x) i r t := by
  have hbound := hb.wellFormed.bound hv
  have horigin := hb.origin hp hs
  cases hn : s.bindings.view i r with
  | none =>
      have hgained := hb.gained hp hs (place_unbound hn) hbound
      constructor
      case pending =>
        intro hf
        have hf' : failed = true := hf
        rw [hf', if_pos rfl] at hgained
        exact pending_of_object? hbound hgained
      case complete =>
        intro hf o ho hpend
        have hf' : failed = false := hf
        rw [hf', if_neg Bool.false_ne_true, ← horigin, ho, hpend] at hgained
        cases hgained
  | some id' =>
      have hkept := hb.kept hp (hwf.bound hn)
      constructor
      case pending => exact fun hx => hkept.trans (h.pending hx)
      case complete =>
        intro hx o ho
        rw [hkept]
        exact h.complete hx o (horigin.symm.trans ho)

theorem Tells.drops {lost : StoreId → Reference → Prop} {x : Bool} (h : Tells x i r s) (hd : Drops lost s t)
    (hs : s.Unanimous r) (hl : ¬ lost i r) : Tells x i r t where
  pending := fun hx => (hd.place hl).trans (h.pending hx)
  complete := fun hx o ho => by
    obtain ⟨j, b, -, hw⟩ := origin_eq_some ho
    rw [hd.place hl]
    exact h.complete hx o (hs j o b (hd.places hw))

theorem Course.tells (h : Course ev) (hroom : fills ev = false) (hwf : ev.before.WellFormed)
    (hs : ev.before.Unanimous r) (ht : Tells (stranded log i r) i r ev.before) :
    Tells (stranded (ev :: log) i r) i r ev.after := by
  cases hv : ev.after.bindings.view i r with
  | none =>
      rw [stranded_unbound hv]
      exact .unbound hv
  | some id =>
      cases h with
      | brings h hw =>
          rw [stranded_bound hv (by simp [hw])]
          exact ht.brings h hwf trivial hs hv
      | @drops lost h hw =>
          have hl : ¬ lost i r := fun hl => by
            rw [h.view_lost hl] at hv
            cases hv
          rw [stranded_bound hv (by simp [hw]), ← h.view hl, hv]
          exact ht.drops h hs hl
      | @writes q o h hr hall hw =>
          by_cases hq : r = q
          · subst hq
            obtain ⟨b, hb⟩ := hall i (h.wellFormed.bound hv)
            rw [stranded_written hw]
            exact ⟨fun hf => (by cases hf), fun _ _ _ => by simp [hb]⟩
          · have hother : ∀ o', written? ev ≠ some (r, o') := fun o' ho' => hq (by
              rw [hw] at ho'
              cases ho'
              rfl)
            rw [stranded_bound hv hother, failsToWrite_of_written hw]
            exact ht.brings h hwf hq hs hv
      | breaks _ _ hf =>
          rw [hroom] at hf
          cases hf

theorem tells_run (hrun : Runs perform (ofFilters filters) log s) (hmem : ∀ ev ∈ log, ev.call.inMemory)
    (hroom : ∀ ev ∈ log, fills ev = false) (i : StoreId) (r : Reference) : Tells (stranded log i r) i r s := by
  induction hrun with
  | none => exact .unbound rfl
  | call hrun k ih =>
      have hmem' := fun ev hev => hmem ev (List.mem_cons_of_mem _ hev)
      have hroom' := fun ev hev => hroom ev (List.mem_cons_of_mem _ hev)
      obtain ⟨h, hm⟩ := wellFormed_run hrun hmem'
      exact (perform_course h hm k (hmem _ List.mem_cons_self)).tells (hroom _ List.mem_cons_self) h
        (unanimous_run hrun hmem' hroom' r) (ih hmem' hroom')

/-! ## Asking for an identity -/

/-- An object is written in a store and found there. -/
def Holds (s : Session) (i : StoreId) (id : ObjectId) (o : Object) : Prop :=
  ∃ st, s.store? i = some st ∧ st.isWritten id = true ∧ st.resolve id = .ok o

theorem holds_of_place {b : Bytes} (h : s.WellFormed) (hv : s.bindings.view i r = some id)
    (hp : s.place i r = .written o b) : s.Holds i id o := by
  obtain ⟨st, hst⟩ := store_of_place (h.bound hv)
  have hw : st.standing id = .written o b := (place_of_view hst hv).symm.trans hp
  exact ⟨st, hst, (Store.isWritten_iff (h.stores hst) id).2 ⟨o, b, hw⟩, Store.resolve_written hw⟩

theorem not_holds_of_pending (hv : s.bindings.view i r = some id) (hp : s.place i r = .pending) :
    ¬ s.Holds i id o := by
  rintro ⟨st, hst, -, hres⟩
  rw [Store.resolve_pending ((place_of_view hst hv).symm.trans hp)] at hres
  cases hres

theorem Tells.holds_iff {x : Bool} (h : Tells x i r s) (hwf : s.WellFormed) (hs : s.Unanimous r)
    (hv : s.bindings.view i r = some id) (ho : s.origin r = some o) : s.Holds i id o ↔ x = false := by
  cases hp : s.place i r with
  | absent => exact absurd hp (hwf.bound hv)
  | pending =>
      have hx : x ≠ false := fun hx => h.complete hx o ho hp
      exact ⟨fun hh => absurd hh (not_holds_of_pending hv hp), fun hx' => absurd hx' hx⟩
  | written o' b =>
      have hx : x ≠ true := fun hx => by
        rw [h.pending hx] at hp
        cases hp
      have ho' := hs i o' b hp
      rw [ho] at ho'
      cases ho'
      exact ⟨fun _ => Bool.eq_false_iff.2 hx, fun _ => holds_of_place hwf hv hp⟩

/-- An identity that is given out stands for the object of the source if the reference had no identity before.
One that has been given out before stands for it unless the reference is stranded. -/
theorem holds_identityFor (hrun : Runs perform (ofFilters filters) log s) (hmem : ∀ ev ∈ log, ev.call.inMemory)
    (hsource : s.bindings.source r = some j) (hid : identityFor r i s = .ok id t) :
    ∃ o, s.sourceObject r = .ok o ∧ t.sourceObject r = .ok o ∧
      (s.bindings.view i r = none → t.Holds i id o) ∧
      ((∀ ev ∈ log, fills ev = false) → (t.Holds i id o ↔ stranded log i r = false)) := by
  have h := (wellFormed_run hrun hmem).1
  rcases identityFor_cases h r i with ⟨id', t', hok, ht, hset, hv⟩ | ⟨e, he⟩ | ⟨e, t', he, -, -⟩
  · rw [hid] at hok
    cases hok
    obtain ⟨o, b, hw⟩ := h.source hsource
    have ho : s.origin r = some o := origin_of_source hsource hw
    have hb : Brings false (fun _ => True) s t := .of_transfer h ht hset fun _ _ _ => rfl
    have ho' : t.origin r = some o := (ht.origin h fun k _ hp => by
      obtain ⟨id', hid'⟩ := view_of_place hp
      exact fetching_bound hid').trans ho
    refine ⟨o, sourceObject_some h ho, sourceObject_some ht.wellFormed ho', fun hn => ?_, fun hroom => ?_⟩
    · obtain ⟨b', hb'⟩ := hset rfl (ht.wellFormed.bound hv) ((fetching_unbound hn).trans ho)
      exact holds_of_place ht.wellFormed hv hb'
    · have hs := unanimous_run hrun hmem hroom r
      have htells := tells_run hrun hmem hroom i r
      have hsame : (if (s.bindings.view i r).isNone then false else stranded log i r) = stranded log i r := by
        cases hn : s.bindings.view i r with
        | some _ => rfl
        | none =>
            -- A reference that is not bound is not stranded.
            cases hx : stranded log i r with
            | false => rfl
            | true =>
                have hp := htells.pending hx
                rw [place_unbound hn] at hp
                cases hp
      have htells' := htells.brings hb h trivial hs hv
      rw [hsame] at htells'
      exact htells'.holds_iff ht.wellFormed (hb.unanimous trivial hs) hv ho'
  · rw [hid] at he
    cases he
  · rw [hid] at he
    cases he

/-- A reference that was stranded in a store until it was written again. -/
theorem holds_identityFor_after_write : ∃ log s t o, Runs perform (ofFilters .standard) log s ∧
    log.map Event.call = [.write ⟨0⟩ (.boolean false),
      .write ⟨1⟩ (.array [.indirect ⟨0⟩, .real (Float.ofBits 0x7ff8000000000000)]), .newReferenceIn [⟨1⟩],
      .writeNew ⟨0⟩ (.boolean true), .createStore .memory ⟨"1.4", false, 2, 2⟩,
      .createStore .memory ⟨"1.4", false, 2, 2⟩] ∧
    (∀ ev ∈ log, ev.call.inMemory) ∧ (∀ ev ∈ log, fills ev = false) ∧ s.bindings.source ⟨0⟩ = some ⟨0⟩ ∧
    stranded log ⟨1⟩ ⟨0⟩ = false ∧ stranded log.tail ⟨1⟩ ⟨0⟩ = true ∧ identityFor ⟨0⟩ ⟨1⟩ s = .ok ⟨2, 0⟩ t ∧
    t.sourceObject ⟨0⟩ = .ok o ∧ t.Holds ⟨1⟩ ⟨2, 0⟩ o := by
  let calls : List Call := [.createStore .memory ⟨"1.4", false, 2, 2⟩, .createStore .memory ⟨"1.4", false, 2, 2⟩,
    .writeNew ⟨0⟩ (.boolean true), .newReferenceIn [⟨1⟩],
    .write ⟨1⟩ (.array [.indirect ⟨0⟩, .real (Float.ofBits 0x7ff8000000000000)]), .write ⟨0⟩ (.boolean false)]
  have hrun := runs_events perform calls (ofFilters .standard)
  have hmem : ∀ ev ∈ Operation.events perform calls (ofFilters .standard), ev.call.inMemory := by
    decide +kernel
  have hroom : ∀ ev ∈ Operation.events perform calls (ofFilters .standard), fills ev = false := by
    decide +kernel
  have hsource : (Operation.after perform calls (ofFilters .standard)).bindings.source ⟨0⟩ = some ⟨0⟩ := by
    decide +kernel
  have hnow : stranded (Operation.events perform calls (ofFilters .standard)) ⟨1⟩ ⟨0⟩ = false := by
    decide +kernel
  have hbefore : stranded (Operation.events perform calls (ofFilters .standard)).tail ⟨1⟩ ⟨0⟩ = true := by
    decide +kernel
  have hid : ((identityFor ⟨0⟩ ⟨1⟩).outcome (Operation.after perform calls (ofFilters .standard))).toOption =
      some ⟨2, 0⟩ := by
    decide +kernel
  have hok := Operation.ok_of_outcome hid
  obtain ⟨o, -, ho, -, hiff⟩ := holds_identityFor hrun hmem hsource hok
  exact ⟨_, _, _, o, hrun, Operation.map_call_events perform calls _, hmem, hroom, hsource, hnow, hbefore, hok, ho,
    (hiff hroom).2 hnow⟩

/-- A reference that a failed write has bound is given out under an identity that stands for nothing. -/
theorem not_holds_identityFor : ∃ log s t, Runs perform (ofFilters .standard) log s ∧
    log.map Event.call = [.write ⟨1⟩ (.array [.indirect ⟨0⟩, .real (Float.ofBits 0x7ff8000000000000)]),
      .newReferenceIn [⟨1⟩], .writeNew ⟨0⟩ (.boolean true), .createStore .memory ⟨"1.4", false, 2, 2⟩,
      .createStore .memory ⟨"1.4", false, 2, 2⟩] ∧
    (∀ ev ∈ log, ev.call.inMemory) ∧ (∀ ev ∈ log, fills ev = false) ∧ s.bindings.source ⟨0⟩ = some ⟨0⟩ ∧
    (s.sourceObject ⟨0⟩).toOption.bind Object.boolean? = some true ∧ identityFor ⟨0⟩ ⟨1⟩ s = .ok ⟨2, 0⟩ t ∧
    (t.store? ⟨1⟩).map (fun st => (st.isWritten ⟨2, 0⟩, (st.resolve ⟨2, 0⟩).isOk)) = some (false, false) := by
  let calls : List Call := [.createStore .memory ⟨"1.4", false, 2, 2⟩, .createStore .memory ⟨"1.4", false, 2, 2⟩,
    .writeNew ⟨0⟩ (.boolean true), .newReferenceIn [⟨1⟩],
    .write ⟨1⟩ (.array [.indirect ⟨0⟩, .real (Float.ofBits 0x7ff8000000000000)])]
  have hrun := runs_events perform calls (ofFilters .standard)
  have hid : ((identityFor ⟨0⟩ ⟨1⟩).outcome (Operation.after perform calls (ofFilters .standard))).toOption =
      some ⟨2, 0⟩ := by
    decide +kernel
  exact ⟨_, _, _, hrun, Operation.map_call_events perform calls _, by decide +kernel, by decide +kernel,
    by decide +kernel, by decide +kernel, Operation.ok_of_outcome hid, by decide +kernel⟩

end PdfStore.Session
