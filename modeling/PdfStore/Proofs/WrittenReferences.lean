import Mathlib.Data.List.TakeWhile
import PdfStore.Proofs.FailedWrites

/-!
# The references that are written

All references of an object are bound to a store before it is written there. Not all of them are written:
the entry `Length` of a stream gives way to the length of its data, whatever it holds. A list of all
references, each with whether it is written (`Object.mentions`), has the references that are bound and the
references that are written as its two readings.
-/

namespace PdfStore

variable {table : Option ReferenceTable} {o : Object} {ts : List Token}

/-! ## The references in tokens -/

def Token.reference? : Token → Option Reference
  | reference r => some r
  | _ => none

def referencesIn (ts : List Token) : List Reference := ts.filterMap Token.reference?

theorem referencesIn_arrayTokens (items : List (List Token)) :
    referencesIn (arrayTokens items) = items.flatMap referencesIn :=
  filterMap_arrayTokens (fun _ => rfl) items

theorem referencesIn_dictionaryTokens (m : OrderedMap Name (List Token)) :
    referencesIn (dictionaryTokens m) = m.entries.flatMap fun e => referencesIn e.2 :=
  filterMap_dictionaryTokens (fun _ => rfl) m

theorem referencesIn_streamTokens (m : OrderedMap Name (List Token)) (data : Bytes) :
    referencesIn (streamTokens m data) =
      (m.insert "Length" [.ofString (toString data.length)]).entries.flatMap fun e => referencesIn e.2 :=
  filterMap_streamTokens (fun _ => rfl) m data

/-! ## What is written of a sequence of tokens -/

/-- The tokens in front of the first that has no written form. -/
def emitted (table : Option ReferenceTable) (ts : List Token) : List Token :=
  ts.takeWhile fun t => (t.bytes table).isOk

/-- What is written consists of the written forms of these. -/
theorem bytes_writeTokens (table : Option ReferenceTable) (ts : List Token) :
    (writeTokens table ts).bytes = (emitted table ts).flatMap fun t => (t.bytes table).toOption.getD [] := by
  induction ts with
  | nil => rfl
  | cons t ts ih =>
      rw [writeTokens, emitted, List.takeWhile_cons]
      cases ht : t.bytes table with
      | error e => rfl
      | ok b => simp [ih, emitted, ht, Except.isOk, Except.toBool, Except.toOption]

theorem emitted_eq (h : ∀ t ∈ ts, ∃ b, t.bytes table = .ok b) : emitted table ts = ts := by
  refine List.takeWhile_eq_self_iff.2 fun t ht => ?_
  obtain ⟨b, hb⟩ := h t ht
  rw [hb]
  rfl

/-! ## The references of objects -/

namespace Object

mutual

/-- Every reference of the object in order, and whether it is written. -/
def mentions : Object → List (Reference × Bool)
  | indirect r => [(r, true)]
  | array items => itemMentions items
  | dictionary ⟨entries⟩ => entryMentions entries
  | stream ⟨entries⟩ _ => streamMentions entries
  | _ => []

def itemMentions : List Object → List (Reference × Bool)
  | [] => []
  | o :: rest => mentions o ++ itemMentions rest

def entryMentions : List (Name × Object) → List (Reference × Bool)
  | [] => []
  | (_, o) :: rest => mentions o ++ entryMentions rest

/-- The entries of a stream, of which the length of the data replaces one. -/
def streamMentions : List (Name × Object) → List (Reference × Bool)
  | [] => []
  | (k, o) :: rest =>
    match compare "Length" k with
    | .lt => mentions o ++ entryMentions rest
    | .eq => (references o).map (·, false) ++ entryMentions rest
    | .gt => mentions o ++ streamMentions rest

end

def writtenIn (ms : List (Reference × Bool)) : List Reference := (ms.filter (·.2)).map (·.1)

theorem writtenIn_append (ms ms' : List (Reference × Bool)) :
    writtenIn (ms ++ ms') = writtenIn ms ++ writtenIn ms' := by
  rw [writtenIn, List.filter_append, List.map_append]
  rfl

theorem writtenIn_replaced (refs : List Reference) : writtenIn (refs.map (·, false)) = [] := by
  simp [writtenIn]

/-- The references that are written, in order. -/
def writtenReferences (o : Object) : List Reference := writtenIn o.mentions

/-- The references that are not, as something else is written in their place. -/
def replacedReferences (o : Object) : List Reference := (o.mentions.filter (!·.2)).map (·.1)

/-- The references whose tokens are written under a table. -/
def emittedReferences (table : Option ReferenceTable) (o : Object) : List Reference :=
  referencesIn (PdfStore.emitted table o.tokens)

mutual

theorem map_mentions : (o : Object) → o.mentions.map (·.1) = o.references
  | indirect _ => rfl
  | array items => map_itemMentions items
  | dictionary ⟨entries⟩ => map_entryMentions entries
  | stream ⟨entries⟩ _ => map_streamMentions entries
  | null | boolean _ | number _ | name _ | string _ => rfl

theorem map_itemMentions : (items : List Object) → (itemMentions items).map (·.1) = itemReferences items
  | [] => rfl
  | o :: rest => by
      rw [itemMentions, itemReferences, List.map_append, map_mentions o, map_itemMentions rest]

theorem map_entryMentions : (entries : List (Name × Object)) →
    (entryMentions entries).map (·.1) = entryReferences entries
  | [] => rfl
  | (_, o) :: rest => by
      rw [entryMentions, entryReferences, List.map_append, map_mentions o, map_entryMentions rest]

theorem map_streamMentions : (entries : List (Name × Object)) →
    (streamMentions entries).map (·.1) = entryReferences entries
  | [] => rfl
  | (k, o) :: rest => by
      rw [entryReferences]
      cases hk : compare "Length" k with
      | lt => simp only [streamMentions, hk, List.map_append, map_mentions o, map_entryMentions rest]
      | eq =>
          have hreplaced : (o.references.map (·, false)).map (·.1) = o.references := by
            rw [List.map_map]
            exact List.map_id _
          simp only [streamMentions, hk, List.map_append, hreplaced, map_entryMentions rest]
      | gt => simp only [streamMentions, hk, List.map_append, map_mentions o, map_streamMentions rest]

end

mutual

/-- The references in the tokens of an object are those that are listed as written. -/
theorem referencesIn_tokens : (o : Object) → referencesIn o.tokens = writtenIn o.mentions
  | indirect _ => rfl
  | array items => by
      rw [tokens, referencesIn_arrayTokens]
      exact referencesIn_itemTokens items
  | dictionary ⟨entries⟩ => by
      rw [tokens, referencesIn_dictionaryTokens]
      exact referencesIn_listTokens entries
  | stream ⟨entries⟩ data => by
      rw [tokens, referencesIn_streamTokens]
      exact referencesIn_insertEntry rfl entries
  | null => rfl
  | boolean _ => rfl
  | number (.integer _) => rfl
  | number (.real _) => rfl
  | name _ => rfl
  | string ⟨_, .literal⟩ => rfl
  | string ⟨_, .hex⟩ => rfl

theorem referencesIn_itemTokens : (items : List Object) →
    (itemTokens items).flatMap referencesIn = writtenIn (itemMentions items)
  | [] => rfl
  | o :: rest => by
      rw [itemTokens, itemMentions, List.flatMap_cons, writtenIn_append, referencesIn_tokens o,
        referencesIn_itemTokens rest]

theorem referencesIn_listTokens : (entries : List (Name × Object)) →
    ((listTokens entries).flatMap fun e => referencesIn e.2) = writtenIn (entryMentions entries)
  | [] => rfl
  | (_, o) :: rest => by
      rw [listTokens, entryMentions, List.flatMap_cons, writtenIn_append, referencesIn_tokens o,
        referencesIn_listTokens rest]

/-- An entry without references goes in where the length does. -/
theorem referencesIn_insertEntry {ts : List Token} (hts : referencesIn ts = []) : (entries : List (Name × Object)) →
    ((OrderedMap.insertEntry "Length" ts (listTokens entries)).flatMap fun e => referencesIn e.2) =
      writtenIn (streamMentions entries)
  | [] => by simp [listTokens, OrderedMap.insertEntry, hts, streamMentions, writtenIn]
  | (k, o) :: rest => by
      cases hk : compare "Length" k with
      | lt => simp only [listTokens, OrderedMap.insertEntry, streamMentions, hk, List.flatMap_cons, hts,
          List.nil_append, writtenIn_append, referencesIn_tokens o, referencesIn_listTokens rest]
      | eq => simp only [listTokens, OrderedMap.insertEntry, streamMentions, hk, List.flatMap_cons, hts,
          writtenIn_append, writtenIn_replaced, referencesIn_listTokens rest]
      | gt => simp only [listTokens, OrderedMap.insertEntry, streamMentions, hk, List.flatMap_cons,
          writtenIn_append, referencesIn_tokens o, referencesIn_insertEntry hts rest]

end

/-! ## What is bound and what is written -/

theorem entryMentions_eq (entries : List (Name × Object)) :
    entryMentions entries = entries.flatMap fun e => e.2.mentions := by
  induction entries with
  | nil => rfl
  | cons e rest ih => rw [entryMentions, List.flatMap_cons, ih]

/-- In a dictionary the length replaces what stands under `Length`, and nothing else. -/
theorem streamMentions_eq {entries : List (Name × Object)} (h : (OrderedMap.mk entries).Ascending) :
    streamMentions entries = entries.flatMap fun e =>
      if e.1 = "Length" then e.2.references.map (·, false) else e.2.mentions := by
  induction entries with
  | nil => rfl
  | cons e rest ih =>
      obtain ⟨k, o⟩ := e
      obtain ⟨hfirst, hrest⟩ := List.pairwise_cons.1 h
      have hafter (hle : (compare "Length" k).isLE) : entryMentions rest = rest.flatMap fun e =>
          if e.1 = "Length" then e.2.references.map (·, false) else e.2.mentions := by
        rw [entryMentions_eq]
        refine List.flatMap_congr fun e he => (if_neg fun heq => ?_).symm
        have hlt : compare "Length" e.1 = .lt := Std.TransCmp.lt_of_isLE_of_lt hle (hfirst e he)
        simp [heq] at hlt
      rw [List.flatMap_cons]
      cases hk : compare "Length" k with
      | lt =>
          have hne : k ≠ "Length" := fun heq => by simp [heq] at hk
          simp only [streamMentions, hk, hafter (by rw [hk]; rfl), if_neg hne]
      | eq =>
          have heq : k = "Length" := (Std.LawfulEqCmp.eq_of_compare hk).symm
          simp only [streamMentions, hk, hafter (by rw [hk]; rfl), if_pos heq]
      | gt =>
          have hne : k ≠ "Length" := fun heq => by simp [heq] at hk
          simp only [streamMentions, hk, ih hrest, if_neg hne]

theorem emittedReferences_prefix (table : Option ReferenceTable) (o : Object) :
    o.emittedReferences table <+: o.writtenReferences := by
  rw [writtenReferences, ← referencesIn_tokens]
  exact (List.takeWhile_prefix _).filterMap _

/-- Of an object that is written whole, all these references are written. -/
theorem emittedReferences_of_toBytes {b : Bytes} (h : o.toBytes table = .ok b) :
    o.emittedReferences table = o.writtenReferences := by
  rw [writtenReferences, ← referencesIn_tokens, emittedReferences, emitted_eq (token_of_written h)]

theorem writtenReferences_sublist (o : Object) : o.writtenReferences.Sublist o.references := by
  rw [← map_mentions]
  exact List.filter_sublist.map _

theorem writtenReferences_eq_iff : o.writtenReferences = o.references ↔ o.replacedReferences = [] := by
  rw [← map_mentions, writtenReferences, writtenIn, replacedReferences, List.map_eq_nil_iff, List.filter_eq_nil_iff]
  constructor
  · intro h m hm
    have hlength := congrArg List.length h
    rw [List.length_map, List.length_map, List.length_filter_eq_length_iff] at hlength
    simp [hlength m hm]
  · intro h
    rw [List.filter_eq_self.2 fun m hm => by simpa using h m hm]

end Object

namespace Session

variable {s t : Session} {i : StoreId} {q : Reference} {d : Delivery} {pending pending' : List Delivery}

/-- The delivery of an object binds all its references, and no other, and writes all but those that something
else is written in place of. -/
theorem deliver_mentions (h : s.WellFormed) (hq : s.bindings.view i q = some d.id)
    (hok : deliver i d pending s = .ok pending' t) :
    (∀ r, (t.bindings.view i r).isSome ↔ (s.bindings.view i r).isSome ∨ r ∈ d.object.references) ∧
      ∃ b, d.object.toBytes (some (t.bindings.view i)) = .ok b ∧
        t.place i q = .written d.object (FileText.object d.id b) ∧
        d.object.emittedReferences (some (t.bindings.view i)) = d.object.writtenReferences := by
  obtain ⟨st, hst⟩ := store_of_place (h.bound hq)
  obtain ⟨_, u, hbind, hrest⟩ := Operation.bind_ok hok
  obtain ⟨_, v, hput, hpure⟩ := Operation.bind_ok hrest
  obtain ⟨-, rfl⟩ := Operation.pure_ok hpure
  rcases bindAll_leaves h hst d.object.references pending with ⟨result, u₁, hok₁, hl, hall⟩ | ⟨e, u₁, he, -⟩
  · rw [hbind] at hok₁
    cases hok₁
    obtain ⟨st', hst', -⟩ := hl.isOpen hst
    rcases put_cases hl.wellFormed hst' (hl.kept hq) hall with ⟨c, v', hput', hc, hsets⟩ | ⟨e, he, -⟩ | ⟨he, -⟩
    · rw [hput] at hput'
      cases hput'
      have hview : v.bindings.view i = u.bindings.view i := by rw [bindings_put hput]
      rw [hview]
      refine ⟨fun r => ⟨fun hr => ?_, fun hr => ?_⟩, c, hc, ?_, Object.emittedReferences_of_toBytes hc⟩
      · obtain ⟨id, hid⟩ := Option.isSome_iff_exists.1 hr
        rcases hl.bound hid with hid | ⟨-, hmem, -⟩
        · exact Or.inl (by rw [hid]; rfl)
        · exact Or.inr hmem
      · rcases hr with hr | hmem
        · obtain ⟨id, hid⟩ := Option.isSome_iff_exists.1 hr
          rw [hl.kept hid]
          rfl
        · exact hall r hmem
      · rw [hsets.place, if_pos ⟨rfl, rfl⟩]
    · rw [hput] at he
      cases he
    · rw [hput] at he
      cases he
  · rw [hbind] at he
    cases he

/-- The references that are written of an object are its references in order, without those that something
else is written in place of; the delivery of the object binds these as well. -/
theorem written_references {o : Object} {table : ReferenceTable} (hr : ∀ r ∈ o.references, (table r).isSome) :
    o.emittedReferences (some table) <+: o.writtenReferences ∧
    o.writtenReferences.Sublist o.references ∧
    (o.Finite → o.emittedReferences (some table) = o.writtenReferences ∧
      (o.emittedReferences (some table) = o.references ↔ o.replacedReferences = [])) ∧
    ∀ {s t : Session} {i : StoreId} {q : Reference} {id : ObjectId} {pending pending' : List Delivery},
      s.WellFormed → s.bindings.view i q = some id → deliver i ⟨id, o⟩ pending s = .ok pending' t →
        (∀ r, (t.bindings.view i r).isSome ↔ (s.bindings.view i r).isSome ∨ r ∈ o.references) ∧
          ∃ b, o.toBytes (some (t.bindings.view i)) = .ok b ∧
            t.place i q = .written o (FileText.object id b) ∧
            o.emittedReferences (some (t.bindings.view i)) = o.writtenReferences := by
  refine ⟨o.emittedReferences_prefix _, o.writtenReferences_sublist, fun hf => ?_,
    fun {_ _ _ _ id _ _} => deliver_mentions (d := ⟨id, o⟩)⟩
  obtain ⟨b, hb⟩ := Object.toBytes_of_finite hf hr
  have hwritten := Object.emittedReferences_of_toBytes hb
  exact ⟨hwritten, hwritten ▸ Object.writtenReferences_eq_iff⟩

/-- A stream that refers to another object under `Length` binds it and does not mention it. -/
theorem written_references_of_length : ∃ log s t pending o, Runs perform (ofFilters .standard) log s ∧
    log.map Event.call = [.newReferenceIn [⟨0⟩], .newReference, .createStore .memory ⟨"1.4", false, 2, 2⟩] ∧
    o = .stream ⟨[("Length", .indirect ⟨0⟩), ("Parent", .indirect ⟨1⟩)]⟩ [0x78] ∧
    o.Finite ∧ o.references = [⟨0⟩, ⟨1⟩] ∧ o.emittedReferences (some (t.bindings.view ⟨0⟩)) = [⟨1⟩] ∧
    s.bindings.view ⟨0⟩ ⟨1⟩ = some ⟨1, 0⟩ ∧ deliver ⟨0⟩ ⟨⟨1, 0⟩, o⟩ [] s = .ok pending t ∧
    s.bindings.view ⟨0⟩ ⟨0⟩ = none ∧ (t.bindings.view ⟨0⟩ ⟨0⟩).isSome := by
  let calls : List Call := [.createStore .memory ⟨"1.4", false, 2, 2⟩, .newReference, .newReferenceIn [⟨0⟩]]
  let o : Object := .stream ⟨[("Length", .indirect ⟨0⟩), ("Parent", .indirect ⟨1⟩)]⟩ [0x78]
  have hrun := runs_events perform calls (ofFilters .standard)
  have hmem : ∀ ev ∈ Operation.events perform calls (ofFilters .standard), ev.call.inMemory := by
    decide +kernel
  have hview : (Operation.after perform calls (ofFilters .standard)).bindings.view ⟨0⟩ ⟨1⟩ = some ⟨1, 0⟩ := by
    decide +kernel
  have hnone : (Operation.after perform calls (ofFilters .standard)).bindings.view ⟨0⟩ ⟨0⟩ = none := by
    decide +kernel
  have hdelivers : ((deliver ⟨0⟩ ⟨⟨1, 0⟩, o⟩ []).outcome (Operation.after perform calls (ofFilters .standard))).isOk := by
    decide +kernel
  have hcalls := Operation.map_call_events perform calls (ofFilters .standard)
  -- What the calls lead to is not to be computed again.
  generalize Operation.after perform calls (ofFilters .standard) = s at hrun hview hnone hdelivers
  generalize Operation.events perform calls (ofFilters .standard) = log at hrun hmem hcalls
  have hs := (wellFormed_run hrun hmem).1
  cases hok : deliver ⟨0⟩ ⟨⟨1, 0⟩, o⟩ [] s with
  | error e t =>
      rw [Operation.outcome_error hok] at hdelivers
      cases hdelivers
  | ok pending t =>
      have hreferences : ∀ r ∈ o.references, (t.bindings.view ⟨0⟩ r).isSome := fun r hr =>
        ((deliver_mentions hs hview hok).1 r).2 (Or.inr hr)
      obtain ⟨-, -, hwhole, hdelivery⟩ := written_references hreferences
      obtain ⟨-, b, hb, -⟩ := hdelivery hs hview hok
      have hfinite : o.Finite := Object.finite_of_toBytes hb
      have hwritten : o.writtenReferences = [⟨1⟩] := by decide +kernel
      exact ⟨log, s, t, pending, o, hrun, hcalls, rfl, hfinite, by decide +kernel,
        (hwhole hfinite).1.trans hwritten, hview, hok, hnone, hreferences ⟨0⟩ (by decide +kernel)⟩

/-- The references that are written are not those that are bound. -/
theorem not_emittedReferences_eq_references : ¬ ∀ (o : Object) (table : ReferenceTable),
    (∀ r ∈ o.references, (table r).isSome) → o.emittedReferences (some table) = o.references := by
  intro h
  have hlength := h (.stream ⟨[("Length", .indirect ⟨0⟩)]⟩ [0x78]) (fun _ => some ⟨2, 0⟩) fun _ _ => rfl
  revert hlength
  decide +kernel

end Session

end PdfStore
