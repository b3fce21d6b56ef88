import PdfStore.Proofs.FailedWrites

/-!
# What a write comes to

A write fails for a reason that the session and the object show before the call (`Session.writeFault?`), and
then only references have been bound. If there is none, every store of the reference has the object. What the
other references take along can be written wherever they are bound, so it is never a reason.
-/

namespace PdfStore

variable {table : Option ReferenceTable} {o : Object} {ts : List Token}

/-! ## Reals that have no written form -/

def Token.real? : Token → Option Float
  | real x => some x
  | _ => none

namespace Object

mutual

/-- The reals of an object that are written, in order. -/
def writtenReals : Object → List Float
  | number (.real x) => [x]
  | array items => itemReals items
  | dictionary ⟨entries⟩ => entryReals entries
  | stream ⟨entries⟩ _ => streamReals entries
  | _ => []

def itemReals : List Object → List Float
  | [] => []
  | o :: rest => writtenReals o ++ itemReals rest

def entryReals : List (Name × Object) → List Float
  | [] => []
  | (_, o) :: rest => writtenReals o ++ entryReals rest

/-- The length of the data is written in place of the entry that stands under `Length`. -/
def streamReals : List (Name × Object) → List Float
  | [] => []
  | (k, o) :: rest =>
    match compare "Length" k with
    | .lt => writtenReals o ++ entryReals rest
    | .eq => entryReals rest
    | .gt => writtenReals o ++ streamReals rest

end

mutual

theorem real?_tokens : (o : Object) → o.tokens.filterMap Token.real? = o.writtenReals
  | number (.real _) => rfl
  | number (.integer _) => rfl
  | array items => by
      rw [tokens, filterMap_arrayTokens fun _ => rfl]
      exact real?_itemTokens items
  | dictionary ⟨entries⟩ => by
      rw [tokens, filterMap_dictionaryTokens fun _ => rfl]
      exact real?_listTokens entries
  | stream ⟨entries⟩ data => by
      rw [tokens, filterMap_streamTokens fun _ => rfl]
      exact real?_insertEntry rfl entries
  | null => rfl
  | boolean _ => rfl
  | name _ => rfl
  | string ⟨_, .literal⟩ => rfl
  | string ⟨_, .hex⟩ => rfl
  | indirect _ => rfl

theorem real?_itemTokens : (items : List Object) →
    (itemTokens items).flatMap (List.filterMap Token.real?) = itemReals items
  | [] => rfl
  | o :: rest => by rw [itemTokens, itemReals, List.flatMap_cons, real?_tokens o, real?_itemTokens rest]

theorem real?_listTokens : (entries : List (Name × Object)) →
    ((listTokens entries).flatMap fun e => e.2.filterMap Token.real?) = entryReals entries
  | [] => rfl
  | (_, o) :: rest => by rw [listTokens, entryReals, List.flatMap_cons, real?_tokens o, real?_listTokens rest]

theorem real?_insertEntry {ts : List Token} (hts : ts.filterMap Token.real? = []) :
    (entries : List (Name × Object)) →
      ((OrderedMap.insertEntry "Length" ts (listTokens entries)).flatMap fun e => e.2.filterMap Token.real?) =
        streamReals entries
  | [] => by simp [listTokens, OrderedMap.insertEntry, hts, streamReals]
  | (k, o) :: rest => by
      cases hk : compare "Length" k with
      | lt => simp only [listTokens, OrderedMap.insertEntry, streamReals, hk, List.flatMap_cons, hts,
          List.nil_append, real?_tokens o, real?_listTokens rest]
      | eq => simp only [listTokens, OrderedMap.insertEntry, streamReals, hk, List.flatMap_cons, hts,
          List.nil_append, real?_listTokens rest]
      | gt => simp only [listTokens, OrderedMap.insertEntry, streamReals, hk, List.flatMap_cons,
          real?_tokens o, real?_insertEntry hts rest]

end

/-- The first real of an object that keeps it from being written. -/
def nonFinite? (o : Object) : Option Float := o.writtenReals.find? fun x => !x.isFinite

theorem mem_writtenReals {x : Float} : x ∈ o.writtenReals ↔ .real x ∈ o.tokens := by
  rw [← real?_tokens, List.mem_filterMap]
  constructor
  · rintro ⟨t, ht, hx⟩
    cases t with
    | real y => cases hx; exact ht
    | _ => cases hx
  · exact fun hx => ⟨_, hx, rfl⟩

theorem finite_iff : o.Finite ↔ o.nonFinite? = none := by
  simp only [Finite, nonFinite?, List.find?_eq_none, mem_writtenReals, Bool.not_eq_true', Bool.not_eq_false]

theorem writeTokens_error {refs : ReferenceTable} {e : ObjectError}
    (hrefs : ∀ r, .reference r ∈ ts → (refs r).isSome) (he : (writeTokens (some refs) ts).complete = .error e) :
    ∃ x, (ts.filterMap Token.real?).find? (fun x => !x.isFinite) = some x ∧ e = .nonFinite x := by
  induction ts with
  | nil => cases he
  | cons t ts ih =>
      have hrefs' : ∀ r, .reference r ∈ ts → (refs r).isSome := fun r hr => hrefs r (List.mem_cons_of_mem _ hr)
      cases t with
      | text b => exact ih hrefs' (complete_of_cons_error rfl he)
      | reference r =>
          obtain ⟨id, hid⟩ := Option.isSome_iff_exists.1 (hrefs r List.mem_cons_self)
          have hb : (Token.reference r).bytes (some refs) = .ok (Bytes.ofString id.token) := by
            simp only [Token.bytes, hid]
          exact ih hrefs' (complete_of_cons_error hb he)
      | real x =>
          have hcons : (Token.real x :: ts).filterMap Token.real? = x :: ts.filterMap Token.real? := rfl
          rw [hcons, List.find?_cons]
          cases hx : x.isFinite with
          | true =>
              obtain ⟨b, hb⟩ : ∃ b, (Token.real x).bytes (some refs) = .ok b := ⟨_, if_pos hx⟩
              exact ih hrefs' (complete_of_cons_error hb he)
          | false =>
              simp only [writeTokens, Token.bytes, hx, Written.complete] at he
              cases he
              exact ⟨x, rfl, rfl⟩

/-- An object whose references have identities fails to be written at the first real that is not finite. -/
theorem nonFinite?_of_toBytes {refs : ReferenceTable} {e : ObjectError} (hrefs : ∀ r ∈ o.references, (refs r).isSome)
    (he : o.toBytes (some refs) = .error e) : ∃ x, o.nonFinite? = some x ∧ e = .nonFinite x := by
  rw [nonFinite?, ← real?_tokens]
  exact writeTokens_error (fun r hr => hrefs r (references_of_tokens o hr)) he

end Object

namespace Session

variable {s t u : Session} {i j : StoreId} {r q : Reference} {id : ObjectId} {st : Store} {d : Delivery}
variable {e : SessionError} {refs : List Reference} {pending : List Delivery}

/-! ## Why a write fails -/

/-- The first of some references that is none of the session. -/
def unknown? (s : Session) (refs : List Reference) : Option Reference :=
  refs.find? fun q => !decide (s.bindings.Knows q)

/-- What keeps an object from being written in the stores of a session. -/
def objectFault? (s : Session) (o : Object) : Option SessionError :=
  match s.unknown? o.references with
  | some q => some (.unknownReference q)
  | none => o.nonFinite?.map fun x => .store (.object (.nonFinite x))

/-- What keeps an object from being written to a reference. -/
def writeFault? (s : Session) (r : Reference) (o : Object) : Option SessionError :=
  if ¬ s.bindings.Knows r then some (.unknownReference r)
  else if ¬ s.bindings.isBound r then some (.unboundReference r)
  else s.objectFault? o

theorem unknown?_of_unknown (hk : ¬ s.bindings.Knows r) : s.unknown? (r :: refs) = some r :=
  List.find?_cons_of_pos (by simp [hk])

theorem unknown?_of_known (hk : s.bindings.Knows r) : s.unknown? (r :: refs) = s.unknown? refs :=
  List.find?_cons_of_neg (by simp [hk])

theorem unknown?_eq_none : s.unknown? refs = none ↔ ∀ q ∈ refs, s.bindings.Knows q := by
  simp [unknown?, List.find?_eq_none]

theorem sound_iff : s.Sound o ↔ s.objectFault? o = none := by
  rw [Sound, objectFault?, Object.finite_iff, ← unknown?_eq_none]
  cases s.unknown? o.references <;> simp

theorem writeFault?_eq_none :
    s.writeFault? r o = none ↔ s.bindings.Knows r ∧ s.bindings.isBound r = true ∧ s.objectFault? o = none := by
  rw [writeFault?]
  by_cases hk : s.bindings.Knows r
  · by_cases hb : s.bindings.isBound r = true
    · simp [hk, hb]
    · simp [hk, hb]
  · simp [hk]

theorem isBound_of_entry {b : Binding} (hb : s.bindings.entries[r.index]? = some b) :
    s.bindings.isBound r = !b.identities.entries.isEmpty := by
  rw [Bindings.isBound, hb]
  rfl

/-- Binding references one after the other fails at the first that is unknown, or where the table is full. -/
theorem bindAll_fault (h : s.WellFormed) (hst : s.store? i = some st) (refs : List Reference)
    (pending : List Delivery) :
    (∃ result t, bindAll i refs pending s = .ok result t ∧ s.unknown? refs = none) ∨
    (∃ e t, bindAll i refs pending s = .error e t ∧
      (e = .store (.table .full) ∨ ∃ q, s.unknown? refs = some q ∧ e = .unknownReference q)) := by
  induction refs generalizing s pending st with
  | nil => exact Or.inl ⟨pending, s, rfl, rfl⟩
  | cons r rest ih =>
      rcases bindInto_cases h hst r with ⟨hk, he⟩ | ⟨id, hv, hok⟩ | ⟨-, he⟩ | ⟨hn, id, u, hs, hok⟩
      · exact Or.inr ⟨_, s, Operation.bind_of_error he, Or.inr ⟨r, unknown?_of_unknown hk, rfl⟩⟩
      · rw [unknown?_of_known (Bindings.known_of_view hv), bindAll, Operation.bind_of_ok hok]
        exact ih h hst _
      · exact Or.inr ⟨_, s, Operation.bind_of_error he, Or.inl rfl⟩
      · have hnew : u.bindings.view i r = some id := (hs.view i r).trans (if_pos ⟨rfl, rfl⟩)
        have hknows : ∀ q, u.bindings.Knows q ↔ s.bindings.Knows q := fun q => by
          rw [Bindings.Knows, Bindings.Knows, hs.count]
        have hsame : u.unknown? rest = s.unknown? rest := by simp only [unknown?, hknows]
        obtain ⟨st', hst', -⟩ := (reserves_bindInto h hn hok).isOpen hst
        rw [unknown?_of_known ((hknows r).1 (Bindings.known_of_view hnew)), ← hsame, bindAll,
          Operation.bind_of_ok hok]
        exact ih hs.wellFormed hst' _

/-- In memory, a delivery fails for what is wrong with its object. -/
theorem deliver_fault (h : s.WellFormed) (hm : s.InMemory) (hv : s.bindings.view i r = some d.id)
    (he : deliver i d pending s = .error e t) (hfull : e ≠ .store (.table .full)) :
    s.objectFault? d.object = some e := by
  obtain ⟨st, hst⟩ := store_of_place (h.bound hv)
  rcases bindAll_fault h hst d.object.references pending with ⟨result, u, hok, hnone⟩ | ⟨e', u, he', hcause⟩
  · rcases bindAll_leaves h hst d.object.references pending with ⟨_, _, hok', hl, hall⟩ | ⟨_, _, he', -⟩
    · rw [hok] at hok'
      cases hok'
      obtain ⟨st', hst', -⟩ := hl.isOpen hst
      rcases put_cases hl.wellFormed hst' (hl.kept hv) hall with ⟨c, v, hput, -⟩ | ⟨cause, hput, hbytes⟩ | ⟨-, hd⟩
      · rw [deliver, Operation.bind_of_ok hok, Operation.bind_of_ok hput] at he
        cases he
      · rw [deliver, Operation.bind_of_ok hok, Operation.bind_of_error hput] at he
        cases he
        obtain ⟨x, hx, rfl⟩ := Object.nonFinite?_of_toBytes hall hbytes
        simp only [objectFault?, hnone, hx, Option.map_some]
      · rw [hl.inMemory hm i st' hst'] at hd
        cases hd
    · rw [hok] at he'
      cases he'
  · rw [deliver, Operation.bind_of_error he'] at he
    cases he
    obtain ⟨q, hq, rfl⟩ := hcause.resolve_left hfull
    simp only [objectFault?, hq]

/-- The transfer of an object that has a fault fails for it. -/
theorem drain_fault (h : s.WellFormed) (hm : s.InMemory) (hv : s.bindings.view i r = some id)
    (ho : s.objectFault? o ≠ none) : ∃ e t, drain i [⟨id, o⟩] s = .error e t ∧
      (e = .store (.table .full) ∨ s.objectFault? o = some e) := by
  obtain ⟨st, hst⟩ := store_of_place (h.bound hv)
  rcases deliver_cases h hst (fetches_rewriting hv) (owed_rewriting (o := o) hv) with
    ⟨-, -, -, -, -, hsound⟩ | ⟨e, t, he, -⟩
  · exact absurd (sound_iff.1 hsound) ho
  · refine ⟨e, t, drain_error he, ?_⟩
    by_cases hfull : e = .store (.table .full)
    · exact Or.inl hfull
    · exact Or.inr (deliver_fault h hm hv he hfull)

/-! ## The whole write -/

theorem write_error (h : s.WellFormed) (hm : s.InMemory) (hfault : s.writeFault? r o = some e) :
    ∃ e' t, write r o s = .error e' t ∧ (e' = .store (.table .full) ∨ e' = e) := by
  by_cases hk : s.bindings.Knows r
  · obtain ⟨b, hb, hget⟩ := Bindings.get_known hk
    have hlook : look (·.binding r) s = .ok b s := look_of_ok hget
    cases hl : b.identities.entries with
    | nil =>
        have hbound : s.bindings.isBound r = false := by
          rw [isBound_of_entry hb, hl]
          rfl
        rw [writeFault?, if_neg (not_not.2 hk), if_pos (by simp [hbound])] at hfault
        cases hfault
        refine ⟨_, s, ?_, Or.inr rfl⟩
        rw [write, Operation.bind_of_ok hlook]
        simp only [hl]
        rfl
    | cons head rest =>
        obtain ⟨first, id⟩ := head
        have hbound : s.bindings.isBound r = true := by
          rw [isBound_of_entry hb, hl]
          rfl
        rw [writeFault?, if_neg (not_not.2 hk), if_neg (not_not.2 hbound)] at hfault
        have hv : s.bindings.view first r = some id := (mem_identities h hb).1 (by rw [hl]; exact List.mem_cons_self)
        obtain ⟨e', t, he, hcause⟩ := drain_fault h hm hv (o := o) (by rw [hfault]; simp)
        refine ⟨e', t, ?_, hcause.imp_right fun hsame => ?_⟩
        · rw [write, Operation.bind_of_ok hlook]
          simp only [hl]
          exact Operation.bind_of_error (Operation.forM_cons_error he)
        · rw [hfault] at hsame
          exact (Option.some.inj hsame).symm
  · rw [writeFault?, if_pos hk] at hfault
    cases hfault
    exact ⟨_, s, Operation.bind_of_error (look_of_error (Bindings.get_unknown hk)), Or.inr rfl⟩

theorem write_ok (h : s.WellFormed) (hm : s.InMemory) (hfault : s.writeFault? r o = none) :
    (∃ t, write r o s = .ok () t ∧ (∀ j, t.bindings.view j r = s.bindings.view j r) ∧
      ∀ j id, s.bindings.view j r = some id → ∃ st, t.store? j = some st ∧ st.resolve id = .ok o) ∨
    ∃ t, write r o s = .error (.store (.table .full)) t := by
  obtain ⟨hk, hbound, ho⟩ := writeFault?_eq_none.1 hfault
  obtain ⟨b, hb, -⟩ := Bindings.get_known hk
  cases hl : b.identities.entries with
  | nil =>
      rw [isBound_of_entry hb, hl] at hbound
      cases hbound
  | cons head rest =>
      rcases write_sound (fun _ hm _ ht _ => hm.transfer ht) h hm (sound_iff.2 ho) hb hl with
        ⟨t, u, hok, hhalf, hmoves, -, -, hall⟩ | ⟨e, u, j, t, he, -, hmu, -, hf⟩
      · have hview : ∀ j, u.bindings.view j r = s.bindings.view j r := by
          intro j
          rw [hmoves.view]
          cases hv : s.bindings.view j r with
          | some id => exact hhalf.view hv
          | none =>
              by_contra hne
              obtain ⟨id, hid⟩ := Option.ne_none_iff_exists'.1 hne
              exact hhalf.bound (hhalf.wellFormed.bound hid) (place_unbound hv)
        refine Or.inl ⟨u, hok, hview, fun j id hv => ?_⟩
        have hv' : u.bindings.view j r = some id := (hview j).trans hv
        have hp := hmoves.wellFormed.bound hv'
        obtain ⟨st, hst⟩ := store_of_place hp
        obtain ⟨c, hc⟩ := hall j hp
        rw [place_of_view hst hv'] at hc
        exact ⟨st, hst, Store.resolve_written hc⟩
      · exact Or.inr ⟨t, full_of_inMemory hmu hf ▸ he⟩

/-- In memory and with room in the tables, a write fails if the session and the object show a fault before it,
with that fault, and otherwise it succeeds. When it fails, no body has been added to any store and all objects
are what they were; when it succeeds, every store that the reference is bound to has the object. -/
theorem write_outcome {filters : Registry} {log : Log} (hrun : Runs perform (ofFilters filters) log s)
    (hmem : ∀ ev ∈ log, ev.call.inMemory) (hroom : fills (.ofCall perform (.write r o) s) = false) :
    (∀ e, s.writeFault? r o = some e → ∃ t, write r o s = .error e t ∧
      ∀ j, (t.store? j).map Store.besideTable = (s.store? j).map Store.besideTable) ∧
    (s.writeFault? r o = none → ∃ t, write r o s = .ok () t ∧
      (∀ j, t.bindings.view j r = s.bindings.view j r) ∧
      ∀ j id, s.bindings.view j r = some id → ∃ st, t.store? j = some st ∧ st.resolve id = .ok o) := by
  obtain ⟨h, hm⟩ := wellFormed_run hrun hmem
  have hfull : ∀ {e t}, write r o s = .error e t → e ≠ .store (.table .full) := fun he =>
    not_fills hroom (Operation.bind_of_error he)
  refine ⟨fun e hfault => ?_, fun hfault => ?_⟩
  · obtain ⟨e', t, he, hcause⟩ := write_error h hm hfault
    cases hcause.resolve_left (hfull he)
    refine ⟨t, he, fun j => ?_⟩
    rcases write_leaves h hm he (hfull he) with ⟨-, rfl⟩ | ⟨i, -, hl⟩
    · rfl
    · by_cases hj : j = i
      · rw [hj]
        exact hl.store
      · rw [hl.others hj]
  · exact (write_ok h hm hfault).resolve_right fun ⟨t, he⟩ => hfull he rfl

/-- A write that takes another object along to a second store, with a real that the length of a stream hides,
and after it one that fails at a reference that is unknown. -/
theorem write_outcome_in_two_stores : ∃ log s t u st, Runs perform (ofFilters .standard) log s ∧
    log.map Event.call = [.newReferenceIn [⟨0⟩, ⟨1⟩], .writeNew ⟨0⟩ (.boolean true),
      .createStore .memory ⟨"1.4", false, 2, 2⟩, .createStore .memory ⟨"1.4", false, 2, 2⟩] ∧
    write ⟨1⟩ (.stream ⟨[("Length", .real (Float.ofBits 0x7ff8000000000000)), ("Of", .indirect ⟨0⟩)]⟩ []) s =
      .ok () t ∧
    t.store? ⟨1⟩ = some st ∧
    st.resolve ⟨1, 0⟩ =
      .ok (.stream ⟨[("Length", .real (Float.ofBits 0x7ff8000000000000)), ("Of", .indirect ⟨0⟩)]⟩ []) ∧
    write ⟨1⟩ (.array [.indirect ⟨0⟩, .real (Float.ofBits 0x7ff8000000000000), .indirect ⟨2⟩]) t =
      .error (.unknownReference ⟨2⟩) u := by
  let o : Object := .stream ⟨[("Length", .real (Float.ofBits 0x7ff8000000000000)), ("Of", .indirect ⟨0⟩)]⟩ []
  let o' : Object := .array [.indirect ⟨0⟩, .real (Float.ofBits 0x7ff8000000000000), .indirect ⟨2⟩]
  let calls : List Call := [.createStore .memory ⟨"1.4", false, 2, 2⟩, .createStore .memory ⟨"1.4", false, 2, 2⟩,
    .writeNew ⟨0⟩ (.boolean true), .newReferenceIn [⟨0⟩, ⟨1⟩]]
  have hrun := runs_events perform calls (ofFilters .standard)
  have hcalls := Operation.map_call_events perform calls (ofFilters .standard)
  have hmem : ∀ ev ∈ Operation.events perform calls (ofFilters .standard), ev.call.inMemory := by
    decide +kernel
  have hseen : let s := Operation.after perform calls (ofFilters .standard)
      fills (.ofCall perform (.write ⟨1⟩ o) s) = false ∧ (s.writeFault? ⟨1⟩ o).isNone = true ∧
      s.bindings.view ⟨1⟩ ⟨1⟩ = some ⟨1, 0⟩ := by
    decide +kernel
  have hthen : let t := (perform (.write ⟨1⟩ o)).next (Operation.after perform calls (ofFilters .standard))
      fills (.ofCall perform (.write ⟨1⟩ o') t) = false ∧ t.bindings.Knows ⟨1⟩ ∧ t.bindings.isBound ⟨1⟩ = true ∧
      t.unknown? o'.references = some ⟨2⟩ := by
    decide +kernel
  -- What the calls lead to is not to be computed again.
  generalize Operation.after perform calls (ofFilters .standard) = s at hrun hseen hthen
  generalize Operation.events perform calls (ofFilters .standard) = log at hrun hcalls hmem
  obtain ⟨hroom, hnone, hview⟩ := hseen
  obtain ⟨t, hok, -, hholds⟩ := (write_outcome hrun hmem hroom).2 (Option.isNone_iff_eq_none.1 hnone)
  obtain ⟨st, hst, hresolve⟩ := hholds ⟨1⟩ ⟨1, 0⟩ hview
  have hcall : perform (.write ⟨1⟩ o) s = .ok .done t := Operation.bind_of_ok hok
  have hrun' := hrun.call (.write ⟨1⟩ o)
  rw [Operation.next_ok hcall] at hthen hrun'
  obtain ⟨hroom', hk, hbound, hunknown⟩ := hthen
  have hfault : t.writeFault? ⟨1⟩ o' = some (.unknownReference ⟨2⟩) := by
    rw [writeFault?, if_neg (not_not.2 hk), if_neg (not_not.2 hbound), objectFault?, hunknown]
  obtain ⟨u, he, -⟩ := (write_outcome hrun' (List.forall_mem_cons.2 ⟨rfl, hmem⟩) hroom').1 _ hfault
  exact ⟨log, s, t, u, st, hrun, hcalls, hok, hst, hresolve, he⟩

end Session

end PdfStore
