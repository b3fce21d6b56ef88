import PdfStore.Proofs.BuiltObjects
import PdfStore.Proofs.KeyOrder
import PdfStore.Proofs.Runs

/-!
# What is done to a dictionary

A dictionary is collected from pairs; then values are put in and taken out, and changed in place at any depth. It finds
what was stored last (`lastStored`). Nothing else of what has been done to it can be seen: not in the order of its keys, nor
in what is written of it, nor in its references.
-/

namespace PdfStore.Dictionary

/-! ## Calls -/

inductive Call
  | put (k : Name) (o : Object)
  | adding (k : Name) (o : Object)
  | remove (k : Name)
  | inside (k : Name) (path : List Segment) (c : Change)

/-- The objects that a call puts in. -/
def Call.values : Call → List Object
  | put _ o | adding _ o => [o]
  | remove _ => []
  | inside _ _ c => c.values

/-- A call answers the value that it replaces or takes out. A change in place fails if it cannot be made there. -/
def perform : Call → Operation Unit Dictionary (Option Object)
  | .put k o => fun d => .ok (Entries.put k o d).1 (Entries.put k o d).2
  | .adding k o => fun d => .ok none (Entries.put k o d).2
  | .remove k => fun d => .ok (Entries.remove k d).1 (Entries.remove k d).2
  | .inside k path c => fun d =>
    match Edit.along (.key k :: path) c.edit (.dictionary d) with
    | some (a, .dictionary d) => .ok a d
    | _ => .error () d

/-- The object with the change made at a path, if it can be made there. -/
def applied (path : List Segment) (c : Change) (o : Object) : Object :=
  ((Edit.along path c.edit o).map Prod.snd).getD o

/-- What has been put in last under a key and not been taken out since, with the changes made to it in place. The calls
stand with the latest one first. -/
def lastStored (first : List (Name × Object)) : List Call → Name → Option Object
  | [], k => first.reverse.lookup k
  | .put k' o :: calls, k | .adding k' o :: calls, k => if k = k' then some o else lastStored first calls k
  | .remove k' :: calls, k => if k = k' then none else lastStored first calls k
  | .inside k' path c :: calls, k =>
    if k = k' then (lastStored first calls k).map (applied path c) else lastStored first calls k

/-- What is put in and what is taken out answers what was there before, in the dictionary and in those inside it. -/
def AnswersLast (first : List (Name × Object)) (older : List Call) (ev : Event Call Unit Dictionary (Option Object)) :
    Prop :=
  match ev.call with
  | .put k _ | .remove k => ev.outcome = .ok (lastStored first older k)
  | .inside k path (.put key _) | .inside k path (.remove key) =>
    ev.outcome = (((lastStored first older k).bind (Object.at? path)).bind Object.entries?).elim (.error ())
      fun entries => .ok (entries.get? key)
  | _ => True

variable {first : List (Name × Object)} {log : List (Event Call Unit Dictionary (Option Object))} {d : Dictionary}
  {k : Name}

/-! ## One call -/

theorem along_key (k : Name) (path : List Segment) (e : Edit (Option Object)) (d : Dictionary) :
    Edit.along (.key k :: path) e (.dictionary d) = (d.get? k).bind fun o =>
      (Edit.along path e o).map fun r => (r.1, .dictionary (d.insert k r.2)) :=
  Edit.along_cons (.key k) path e (.dictionary d)

theorem next_inside (k : Name) (path : List Segment) (c : Change) (d : Dictionary) :
    (perform (.inside k path c)).next d =
      (((d.get? k).bind (Edit.along path c.edit)).map fun r => d.insert k r.2).getD d := by
  simp only [Operation.next, perform, along_key]
  cases d.get? k with
  | none => rfl
  | some o =>
      simp only [Option.bind_some]
      cases Edit.along path c.edit o <;> rfl

theorem outcome_inside (k : Name) (path : List Segment) (c : Change) (d : Dictionary) :
    (perform (.inside k path c)).outcome d =
      (((d.get? k).bind (Object.at? path)).bind fun part => (c.edit part).map Prod.fst).elim (.error ()) .ok := by
  simp only [Operation.outcome, perform, along_key, Option.bind_assoc, ← Edit.answer_along]
  cases d.get? k with
  | none => rfl
  | some o =>
      simp only [Option.bind_some]
      cases Edit.along path c.edit o <;> rfl

theorem get?_next_inside (k : Name) (path : List Segment) (c : Change) (d : Dictionary) (k' : Name) :
    ((perform (.inside k path c)).next d).get? k' =
      if k' = k then (d.get? k').map (applied path c) else d.get? k' := by
  rw [next_inside]
  by_cases hk : k' = k
  · subst hk
    rw [if_pos rfl]
    cases ho : d.get? k' with
    | none => exact ho
    | some o =>
        rw [Option.bind_some, Option.map_some, applied]
        cases Edit.along path c.edit o with
        | none => exact ho
        | some r => exact OrderedMap.get?_insert_self ..
  · rw [if_neg hk]
    cases (d.get? k).bind (Edit.along path c.edit) with
    | none => rfl
    | some r => exact OrderedMap.get?_insert_of_ne _ hk _

theorem built_next {c : Call} (hd : (Object.dictionary d).Built) (hc : ∀ o ∈ c.values, o.Built) :
    (Object.dictionary ((perform c).next d)).Built := by
  cases c with
  | put k o => exact .changed hd [] (.put k o) hc rfl
  | adding k o => exact .changed hd [] (.put k o) hc rfl
  | remove k => exact .changed hd [] (.remove k) (List.forall_mem_nil _) rfl
  | inside k path c =>
      rw [next_inside]
      cases hr : (d.get? k).bind (Edit.along path c.edit) with
      | none => exact hd
      | some r =>
          obtain ⟨o, ho, hr⟩ := Option.bind_eq_some_iff.1 hr
          refine .changed (a := r.1) hd (.key k :: path) c hc ?_
          rw [along_key, ho, Option.bind_some, hr]
          rfl

/-! ## Runs -/

theorem built_of_runs (h : Runs perform (.ofList first) log d) (hfirst : ∀ e ∈ first, e.2.Built)
    (hlog : ∀ ev ∈ log, ∀ o ∈ ev.call.values, o.Built) : (Object.dictionary d).Built := by
  induction h with
  | none => exact .dictionary hfirst
  | call h c ih =>
      obtain ⟨hc, hlog⟩ := List.forall_mem_cons.1 hlog
      exact built_next (ih hlog) hc

theorem ascending_of_runs (h : Runs perform (.ofList first) log d) : d.Ascending := by
  induction h with
  | none => exact OrderedMap.ascending_ofList first
  | @call log d _ c ih =>
      cases c with
      | put k o => exact OrderedMap.ascending_insert k o ih
      | adding k o => exact OrderedMap.ascending_insert k o ih
      | remove k => exact OrderedMap.ascending_erase k ih
      | inside k path c =>
          rw [next_inside]
          cases (d.get? k).bind (Edit.along path c.edit) with
          | none => exact ih
          | some r => exact OrderedMap.ascending_insert k _ ih

theorem get?_of_runs (h : Runs perform (.ofList first) log d) (k : Name) :
    d.get? k = lastStored first (log.map Event.call) k := by
  induction h with
  | none => exact OrderedMap.get?_ofList first k
  | @call log d h c ih =>
      have hput : ∀ k' o, (d.insert k' o).get? k =
          if k = k' then some o else lastStored first (log.map Event.call) k := by
        intro k' o
        by_cases hk : k = k'
        · rw [if_pos hk, hk, OrderedMap.get?_insert_self]
        · rw [if_neg hk, OrderedMap.get?_insert_of_ne d hk, ih]
      cases c with
      | put k' o => exact hput k' o
      | adding k' o => exact hput k' o
      | remove k' =>
          change (d.erase k').get? k = if k = k' then none else lastStored first (log.map Event.call) k
          by_cases hk : k = k'
          · rw [if_pos hk, hk, OrderedMap.get?_erase_self (ascending_of_runs h)]
          · rw [if_neg hk, OrderedMap.get?_erase_of_ne d hk, ih]
      | inside k' path c =>
          rw [get?_next_inside, ih]
          rfl

theorem answersLast_of_runs {newer older : List (Event Call Unit Dictionary (Option Object))}
    {ev : Event Call Unit Dictionary (Option Object)} (h : Runs perform (.ofList first) (newer ++ ev :: older) d) :
    AnswersLast first (older.map Event.call) ev := by
  obtain ⟨c, t, rfl, ht⟩ := h.earlier
  have hinside : ∀ k path key c', (∀ part, (c'.edit part).map Prod.fst = part.entries?.map (·.get? key)) →
      (perform (.inside k path c')).outcome t =
        (((lastStored first (older.map Event.call) k).bind (Object.at? path)).bind Object.entries?).elim (.error ())
          fun entries => .ok (entries.get? key) := by
    intro k path key c' hc'
    rw [outcome_inside, get?_of_runs ht k, funext hc', ← Function.comp_def, ← Option.map_bind, Option.elim_map]
    rfl
  cases c with
  | put k o => exact congrArg Except.ok (get?_of_runs ht k)
  | adding k o => trivial
  | remove k => exact congrArg Except.ok (get?_of_runs ht k)
  | inside k path c =>
      cases c with
      | put key o =>
          refine hinside k path key _ fun part => ?_
          cases part <;> rfl
      | remove key =>
          refine hinside k path key _ fun part => ?_
          cases part <;> rfl
      | _ => trivial

/-- The keys as they are met in order. -/
theorem keys_of_ascending (h : d.Ascending) :
    d.keys.Pairwise (fun k l => Bytes.ofString k < Bytes.ofString l) ∧ d.keys.Nodup := by
  have hlt : d.keys.Pairwise fun k l => Bytes.ofString k < Bytes.ofString l :=
    List.pairwise_map.2 (h.imp Bytes.ofString_lt_of_compare)
  refine ⟨hlt, hlt.imp fun hkl heq => ?_⟩
  rw [heq] at hkl
  exact List.lt_irrefl _ hkl

/-- What a dictionary finds under its keys is all there is to it, however it has come about. -/
theorem contents_decide (h : Runs perform (.ofList first) log d) (hfirst : ∀ e ∈ first, e.2.Built)
    (hlog : ∀ ev ∈ log, ∀ o ∈ ev.call.values, o.Built) :
    (∀ path o entries, (Object.dictionary d).at? path = some o → o.entries? = some entries →
      entries.keys.Pairwise (fun k l => Bytes.ofString k < Bytes.ofString l) ∧ entries.keys.Nodup) ∧
    (∀ k, d.get? k = lastStored first (log.map Event.call) k) ∧
    (∀ newer ev older, log = newer ++ ev :: older → AnswersLast first (older.map Event.call) ev) ∧
    ∀ first' log' d', Runs perform (.ofList first') log' d' → (∀ e ∈ first', e.2.Built) →
      (∀ ev ∈ log', ∀ o ∈ ev.call.values, o.Built) → (∀ k, d.contains k = d'.contains k) →
      (∀ k o o', d.get? k = some o → d'.get? k = some o' → o.Same o') →
      (∀ table, (Object.dictionary d).write table = (Object.dictionary d').write table) ∧
        (Object.dictionary d).references = (Object.dictionary d').references := by
  have hbuilt := (built_of_runs h hfirst hlog).canonical
  refine ⟨fun path o entries hat hentries => ?_, get?_of_runs h, fun newer ev older hsplit => ?_,
    fun first' log' d' h' hfirst' hlog' hkeys hvalues => ?_⟩
  · exact keys_of_ascending ((hbuilt.of_at? hat).of_entries? hentries).ascending
  · subst hsplit
    exact answersLast_of_runs h
  · have hbuilt' := (built_of_runs h' hfirst' hlog').canonical
    have hsame : Object.Same (.dictionary d) (.dictionary d') := .dictionary hkeys hvalues
    exact ⟨fun table => hsame.write hbuilt hbuilt', hsame.references hbuilt hbuilt'⟩

theorem built_of_calls {calls : List Call} (h : ∀ c ∈ calls, ∀ o ∈ c.values, o.Built) (s : Dictionary) :
    ∀ ev ∈ Operation.events perform calls s, ∀ o ∈ ev.call.values, o.Built := by
  intro ev hev
  have hcall : ev.call ∈ (Operation.events perform calls s).map Event.call := List.mem_map_of_mem hev
  rw [Operation.map_call_events, List.mem_reverse] at hcall
  exact h _ hcall

/-- Zeros of both signs, and a dictionary that is changed in place or put in as a whole. -/
theorem contents_decide_of_detour : ∃ log log' d d',
    Runs perform (.ofList [("B", .null), ("A", .real (.ofBits 0))]) log d ∧ Runs perform (.ofList []) log' d' ∧
      d.get? "A" = some (.real (.ofBits 0)) ∧ d'.get? "A" = some (.real (.ofBits 0x8000000000000000)) ∧
      (∀ table, (Object.dictionary d).write table = (Object.dictionary d').write table) ∧
      (Object.dictionary d).references = (Object.dictionary d').references := by
  let calls : List Call := [.put "C" (.dictionary (.ofList [])), .inside "C" [] (.put "Y" .null),
    .inside "C" [] (.put "X" (.boolean true)), .remove "B"]
  let calls' : List Call := [.adding "C" (.dictionary (.ofList [("X", .boolean true), ("Y", .null)])),
    .put "A" (.real (.ofBits 0x8000000000000000))]
  let inner : Object := .dictionary ⟨[("X", .boolean true), ("Y", .null)]⟩
  let d : Dictionary := ⟨[("A", .real (.ofBits 0)), ("C", inner)]⟩
  let d' : Dictionary := ⟨[("A", .real (.ofBits 0x8000000000000000)), ("C", inner)]⟩
  have h : Runs perform (.ofList [("B", .null), ("A", .real (.ofBits 0))]) _ d := runs_events perform calls _
  have h' : Runs perform (.ofList []) _ d' := runs_events perform calls' _
  have hcalls : ∀ c ∈ calls, ∀ o ∈ c.values, o.Built := by
    simp only [calls, Call.values, Change.values, List.forall_mem_cons, List.not_mem_nil, IsEmpty.forall_iff,
      implies_true, and_true]
    exact ⟨.dictionary (List.forall_mem_nil _), .single rfl, .single rfl⟩
  have hcalls' : ∀ c ∈ calls', ∀ o ∈ c.values, o.Built := by
    simp only [calls', Call.values, List.forall_mem_cons, List.not_mem_nil, IsEmpty.forall_iff,
      implies_true, and_true]
    refine ⟨.dictionary ?_, .single rfl⟩
    simp only [List.forall_mem_cons, List.not_mem_nil, IsEmpty.forall_iff, implies_true, and_true]
    exact ⟨.single rfl, .single rfl⟩
  have hkeys : ∀ k, d.contains k = d'.contains k := by
    intro k
    simp only [OrderedMap.contains, OrderedMap.get?, OrderedMap.lookupEntry, d, d']
    split
    · rfl
    · split <;> rfl
  have hvalues : ∀ k o o', d.get? k = some o → d'.get? k = some o' → o.Same o' := by
    intro k o o' ho ho'
    simp only [OrderedMap.get?, OrderedMap.lookupEntry, d, d'] at ho ho'
    split at ho
    · rw [if_pos ‹_›] at ho'
      cases ho
      cases ho'
      exact .number (by decide +kernel : (Float.ofBits 0 == Float.ofBits 0x8000000000000000) = true)
    · rw [if_neg ‹_›] at ho'
      obtain rfl : o = o' := Option.some.inj (ho.symm.trans ho')
      exact .refl o
  have hfirst : ∀ e ∈ [("B", Object.null), ("A", .real (.ofBits 0))], e.2.Built := by
    simp only [List.forall_mem_cons, List.not_mem_nil, IsEmpty.forall_iff, implies_true, and_true]
    exact ⟨.single rfl, .single rfl⟩
  obtain ⟨-, -, -, hsame⟩ := contents_decide h hfirst (built_of_calls hcalls _)
  obtain ⟨hwrite, hreferences⟩ := hsame [] _ d' h' (List.forall_mem_nil _) (built_of_calls hcalls' _) hkeys hvalues
  exact ⟨_, _, d, d', h, h', rfl, rfl, hwrite, hreferences⟩

end PdfStore.Dictionary
