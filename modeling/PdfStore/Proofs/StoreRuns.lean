import PdfStore.Proofs.Runs
import PdfStore.Proofs.StoreOperations

/-!
# Runs of a store

A store is used call by call. Under every identity stands the body of the last write to it that the log
knows of, and no other write leaves a trace in what is found there.
-/

namespace PdfStore.Store

variable {st st' st'' : Store} {id id' : ObjectId} {o : Object} {refs : ReferenceTable}

/-! ## Calls -/

inductive Call
  | reserve
  | delete (id : ObjectId)
  | writeAt (id : ObjectId) (object : Object) (refs : ReferenceTable)
  | replaceAt (id : ObjectId) (object : Object) (refs : ReferenceTable)
  | write (object : Object) (refs : ReferenceTable)
  | setCatalog (id : ObjectId)
  | setInfo (id : ObjectId)
  | resolve (id : ObjectId)
  | readRaw (id : ObjectId)

inductive Answer
  | identity (id : ObjectId)
  | released (outcome : Release)
  | offset (n : Nat)
  | object (o : Object)
  | bytes (b : Bytes)
  | done

/-- An answer that leaves the store as it is. -/
def look {α : Type} (f : Store → Except StoreError α) : Operation StoreError Store α := do
  Operation.ofExcept (fun e => e) (f (← get))

def perform : Call → Operation StoreError Store Answer
  | .reserve => do return .identity (← reserve)
  | .delete id => do return .released (← delete id)
  | .writeAt id o refs => do return .offset (← writeAt id o refs)
  | .replaceAt id o refs => do return .offset (← replaceAt id o refs)
  | .write o refs => do return .identity (← write o refs)
  | .setCatalog id => do setCatalog id; return .done
  | .setInfo id => do setInfo id; return .done
  | .resolve id => do return .object (← look (·.resolve id))
  | .readRaw id => do return .bytes (← readBack id)

abbrev Log := List (Event Call StoreError Store Answer)

/-- A successful write: the identity, the object, and the identities of references that were used. -/
def written? (e : Event Call StoreError Store Answer) : Option (ObjectId × Object × ReferenceTable) :=
  match e.call, e.outcome with
  | .writeAt id o refs, .ok _ => some (id, o, refs)
  | .replaceAt id o refs, .ok _ => some (id, o, refs)
  | .write o refs, .ok (.identity id) => some (id, o, refs)
  | _, _ => none

/-- The last successful write to an identity. -/
def lastWrite (log : Log) (id : ObjectId) : Option (Object × ReferenceTable) :=
  ((log.filterMap written?).find? fun w => w.1 = id).map Prod.snd

/-! ## One call -/

/-- A store in which nothing has been written since. -/
structure Keeps (st st' : Store) : Prop where
  wellFormed : st'.WellFormed
  config : st'.config = st.config
  device : st'.output.device = st.output.device
  standing : ∀ {id o b}, st'.standing id = .written o b → st.standing id = .written o b

theorem Keeps.refl (h : st.WellFormed) : st.Keeps st := ⟨h, rfl, rfl, fun h => h⟩

theorem Becomes.keeps {x : Standing} (h : st.Becomes id x st')
    (hx : ∀ o b, x = .written o b → st.standing id = .written o b) : st.Keeps st' where
  wellFormed := h.wellFormed
  config := h.config
  device := h.device
  standing := fun {id' o b} hst => by
    by_cases hid : id' = id
    · rw [hid, h.self] at hst
      rw [hid]
      exact hx o b hst
    · rwa [h.of_ne hid] at hst

theorem Becomes.trans {x y : Standing} (h : st.Becomes id x st') (h' : st'.Becomes id y st'') :
    st.Becomes id y st'' where
  wellFormed := h'.wellFormed
  config := h'.config.trans h.config
  device := h'.device.trans h.device
  standing := fun id' => by
    rw [h'.standing, h.standing]
    split <;> rfl

/-- What a call does: it writes one body, or nothing is written. -/
inductive Effect (st st' : Store) : Option (ObjectId × Object × ReferenceTable) → Prop
  | keeps (h : st.Keeps st') : Effect st st' none
  | writes {id : ObjectId} {o : Object} {refs : ReferenceTable} {c : Bytes}
      (hc : o.toBytes (some refs) = .ok c) (h : st.Becomes id (.written o (FileText.object id c)) st') :
      Effect st st' (some (id, o, refs))

theorem effect_ok {k : Call} {a : Answer} (h : perform k st = .ok a st')
    (he : Effect st st' (written? ⟨st, k, .ok a, st'⟩)) :
    Effect st ((perform k).next st) (written? (.ofCall perform k st)) := by
  rw [Event.ofCall, Operation.outcome_ok h, Operation.next_ok h]
  exact he

theorem effect_error {k : Call} {e : StoreError} (h : perform k st = .error e st') (he : st.Keeps st') :
    Effect st ((perform k).next st) (written? (.ofCall perform k st)) := by
  rw [Event.ofCall, Operation.outcome_error h, Operation.next_error h]
  have hw : written? ⟨st, k, .error e, st'⟩ = none := by cases k <;> rfl
  rw [hw]
  exact .keeps he

theorem look_cases {α : Type} (f : Store → Except StoreError α) (st : Store) :
    (∃ a, look f st = .ok a st) ∨ ∃ e, look f st = .error e st := by
  rw [look, Operation.bind_of_ok (Operation.get_apply st)]
  cases f st with
  | ok a => exact Or.inl ⟨a, rfl⟩
  | error e => exact Or.inr ⟨e, rfl⟩

/-- A body under an identity in use, or the same store. -/
theorem appendBody_effect (h : st.WellFormed) (hv : st.standing id ≠ .absent) (o : Object)
    (refs : ReferenceTable) :
    (∃ n st', appendBody id o refs st = .ok n st' ∧ Effect st st' (some (id, o, refs))) ∨
      ∃ e, appendBody id o refs st = .error e st := by
  rcases appendBody_cases h hv o refs with ⟨c, st', hok, hc, hb⟩ | ⟨e, he, -⟩ | ⟨he, -⟩
  · exact Or.inl ⟨_, st', hok, .writes hc hb⟩
  · exact Or.inr ⟨_, he⟩
  · exact Or.inr ⟨_, he⟩

theorem writeAt_effect (h : st.WellFormed) (id : ObjectId) (o : Object) (refs : ReferenceTable) :
    (∃ n st', writeAt id o refs st = .ok n st' ∧ Effect st st' (some (id, o, refs))) ∨
      ∃ e, writeAt id o refs st = .error e st := by
  cases hv : st.standing id with
  | absent =>
      obtain ⟨e, he⟩ := writeAt_absent hv
      exact Or.inr ⟨_, he⟩
  | pending =>
      rw [writeAt_pending h hv]
      exact appendBody_effect h (by simp [hv]) o refs
  | written o' b => exact Or.inr ⟨_, writeAt_written h hv⟩

theorem replaceAt_effect (h : st.WellFormed) (id : ObjectId) (o : Object) (refs : ReferenceTable) :
    (∃ n st', replaceAt id o refs st = .ok n st' ∧ Effect st st' (some (id, o, refs))) ∨
      ∃ e, replaceAt id o refs st = .error e st := by
  by_cases hv : st.standing id = .absent
  · obtain ⟨e, he⟩ := replaceAt_absent hv
    exact Or.inr ⟨_, he⟩
  · rw [replaceAt_live hv]
    exact appendBody_effect h hv o refs

theorem write_effect (h : st.WellFormed) (o : Object) (refs : ReferenceTable) :
    (∃ id st', write o refs st = .ok id st' ∧ Effect st st' (some (id, o, refs))) ∨
      ∃ e st', write o refs st = .error e st' ∧ st.Keeps st' := by
  rcases reserve_cases h with ⟨id, st₁, hok, -, hb⟩ | hfull
  · rcases writeAt_effect hb.wellFormed id o refs with ⟨n, st', hok', he⟩ | ⟨e, he⟩
    · refine Or.inl ⟨id, st', (Operation.bind_of_ok hok).trans (Operation.bind_of_ok hok'), ?_⟩
      cases he with
      | writes hc hb' => exact .writes hc (hb.trans hb')
    · exact Or.inr ⟨e, st₁, (Operation.bind_of_ok hok).trans (Operation.bind_of_error he), hb.keeps (by simp)⟩
  · exact Or.inr ⟨_, _, Operation.bind_of_error hfull, .refl h⟩

/-- The step of a run. -/
theorem perform_effect (h : st.WellFormed) (k : Call) :
    Effect st ((perform k).next st) (written? (.ofCall perform k st)) := by
  cases k with
  | reserve =>
      rcases reserve_cases h with ⟨id, st', hok, -, hb⟩ | hfull
      · exact effect_ok (Operation.bind_of_ok hok) (.keeps (hb.keeps (by simp)))
      · exact effect_error (Operation.bind_of_error hfull) (.refl h)
  | delete id =>
      by_cases hv : st.standing id = .absent
      · obtain ⟨e, he⟩ := delete_absent hv
        exact effect_error (Operation.bind_of_error he) (.refl h)
      · obtain ⟨out, st', hok, hb⟩ := delete_live h hv
        exact effect_ok (Operation.bind_of_ok hok) (.keeps (hb.keeps (by simp)))
  | writeAt id o refs =>
      rcases writeAt_effect h id o refs with ⟨n, st', hok, he⟩ | ⟨e, he⟩
      · exact effect_ok (Operation.bind_of_ok hok) he
      · exact effect_error (Operation.bind_of_error he) (.refl h)
  | replaceAt id o refs =>
      rcases replaceAt_effect h id o refs with ⟨n, st', hok, he⟩ | ⟨e, he⟩
      · exact effect_ok (Operation.bind_of_ok hok) he
      · exact effect_error (Operation.bind_of_error he) (.refl h)
  | write o refs =>
      rcases write_effect h o refs with ⟨id, st', hok, he⟩ | ⟨e, st', he, hk⟩
      · exact effect_ok (Operation.bind_of_ok hok) he
      · exact effect_error (Operation.bind_of_error he) hk
  | setCatalog id =>
      by_cases hv : st.standing id = .absent
      · obtain ⟨e, he⟩ := setCatalog_absent hv
        exact effect_error (Operation.bind_of_error he) (.refl h)
      · obtain ⟨st', hok, hb⟩ := setCatalog_live h hv
        exact effect_ok (Operation.bind_of_ok hok) (.keeps (hb.keeps fun _ _ h => h))
  | setInfo id =>
      by_cases hv : st.standing id = .absent
      · obtain ⟨e, he⟩ := setInfo_absent hv
        exact effect_error (Operation.bind_of_error he) (.refl h)
      · obtain ⟨st', hok, hb⟩ := setInfo_live h hv
        exact effect_ok (Operation.bind_of_ok hok) (.keeps (hb.keeps fun _ _ h => h))
  | resolve id =>
      rcases look_cases (·.resolve id) st with ⟨a, hok⟩ | ⟨e, he⟩
      · exact effect_ok (Operation.bind_of_ok hok) (.keeps (.refl h))
      · exact effect_error (Operation.bind_of_error he) (.refl h)
  | readRaw id =>
      cases hread : readBack id st with
      | ok b st' =>
          have hb := (alike_of_readBack hread).becomes h id
          exact effect_ok (Operation.bind_of_ok hread) (.keeps (hb.keeps fun _ _ h => h))
      | error e st' =>
          have hb := (alike_of_readBack_error hread).becomes h id
          exact effect_error (Operation.bind_of_error hread) (hb.keeps fun _ _ h => h)

/-! ## Runs -/

theorem Effect.wellFormed {w : Option (ObjectId × Object × ReferenceTable)} (h : Effect st st' w) :
    st'.WellFormed := by
  cases h with
  | keeps h => exact h.wellFormed
  | writes _ h => exact h.wellFormed

theorem Effect.config {w : Option (ObjectId × Object × ReferenceTable)} (h : Effect st st' w) :
    st'.config = st.config := by
  cases h with
  | keeps h => exact h.config
  | writes _ h => exact h.config

theorem Effect.device {w : Option (ObjectId × Object × ReferenceTable)} (h : Effect st st' w) :
    st'.output.device = st.output.device := by
  cases h with
  | keeps h => exact h.device
  | writes _ h => exact h.device

/-- Under every identity stands the body of the last write to it. -/
structure Recorded (first : Store) (log : Log) (st : Store) : Prop where
  wellFormed : st.WellFormed
  config : st.config = first.config
  device : st.output.device = first.output.device
  body : ∀ {id o b}, st.standing id = .written o b →
    ∃ refs c, lastWrite log id = some (o, refs) ∧ o.toBytes (some refs) = .ok c ∧ b = FileText.object id c

theorem lastWrite_cons_none {log : Log} {e : Event Call StoreError Store Answer} (h : written? e = none) :
    lastWrite (e :: log) = lastWrite log := by
  funext id
  rw [lastWrite, List.filterMap_cons_none h, lastWrite]

theorem lastWrite_cons_some {log : Log} {e : Event Call StoreError Store Answer}
    (h : written? e = some (id, o, refs)) (id' : ObjectId) :
    lastWrite (e :: log) id' = if id' = id then some (o, refs) else lastWrite log id' := by
  rw [lastWrite, List.filterMap_cons_some h, List.find?_cons]
  by_cases hid : id' = id
  · simp [hid]
  · simp [hid, Ne.symm hid, lastWrite]

theorem Effect.body {log : Log} {e : Event Call StoreError Store Answer} (h : Effect st st' (written? e))
    (hbody : ∀ {id o b}, st.standing id = .written o b →
      ∃ refs c, lastWrite log id = some (o, refs) ∧ o.toBytes (some refs) = .ok c ∧ b = FileText.object id c)
    {b : Bytes} (hst : st'.standing id = .written o b) :
    ∃ refs c, lastWrite (e :: log) id = some (o, refs) ∧ o.toBytes (some refs) = .ok c ∧ b = FileText.object id c := by
  generalize hw : written? e = w at h
  cases h with
  | keeps h =>
      rw [lastWrite_cons_none hw]
      exact hbody (h.standing hst)
  | @writes id' o' refs c hc h =>
      rw [lastWrite_cons_some hw]
      by_cases hid : id = id'
      · rw [hid, h.self] at hst
        cases hst
        exact ⟨refs, c, if_pos hid, hc, by rw [hid]⟩
      · rw [h.of_ne hid] at hst
        rw [if_neg hid]
        exact hbody hst

theorem recorded_run {log : Log} (h₀ : st.WellFormed) (hw : ∀ id o b, st.standing id ≠ .written o b)
    (h : Runs perform st log st') : Recorded st log st' := by
  induction h with
  | none => exact ⟨h₀, rfl, rfl, fun hst => absurd hst (hw _ _ _)⟩
  | call _ k ih =>
      have he := perform_effect ih.wellFormed k
      exact ⟨he.wellFormed, he.config.trans ih.config, he.device.trans ih.device, fun hst => he.body ih.body hst⟩

/-- A store that has been created and used. -/
def Reachable (st : Store) : Prop :=
  ∃ device config first log, create device config = .ok first ∧ Runs perform first log st

theorem Reachable.wellFormed (h : st.Reachable) : st.WellFormed := by
  obtain ⟨device, config, first, log, hcreate, hrun⟩ := h
  obtain ⟨h₀, -, -, -, habsent⟩ := create_ok hcreate
  exact (recorded_run h₀ (fun id => by simp [habsent id]) hrun).wellFormed

end PdfStore.Store
