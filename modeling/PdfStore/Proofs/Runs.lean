import PdfStore.Operation

/-!
# Runs

A run makes calls one after the other. Its log tells what came of each call, the latest one first. A call
that fails belongs to the run as well, with the state that it leaves behind.
-/

namespace PdfStore

namespace Operation

variable {ε ε' σ τ α β : Type}

theorem ok_of_outcome {x : Operation ε σ α} {s : σ} {a : α} (h : (x.outcome s).toOption = some a) :
    x s = .ok a (x.next s) := by
  unfold outcome at h
  unfold next
  cases hx : x s with
  | ok b t =>
      rw [hx] at h
      cases h
      rfl
  | error e t =>
      rw [hx] at h
      cases h

theorem error_of_outcome {x : Operation ε σ α} {s : σ} (h : (x.outcome s).isOk = false) :
    ∃ e, x s = .error e (x.next s) := by
  unfold outcome at h
  unfold next
  cases hx : x s with
  | ok b t =>
      rw [hx] at h
      cases h
  | error e t => exact ⟨e, rfl⟩

/-! ## Steps of an operation, whether or not it fails -/

@[simp] theorem ofExcept_apply_ok (cause : ε' → ε) (a : α) (s : σ) :
    ofExcept cause (.ok a) s = .ok a s := rfl

@[simp] theorem ofExcept_apply_error (cause : ε' → ε) (e : ε') (s : σ) :
    (ofExcept cause (.error e) : Operation ε σ α) s = .error (cause e) s := rfl

theorem forM_cons_ok {κ : Type} {f : κ → Operation ε σ PUnit} {a : κ} {l : List κ} {s t : σ}
    (h : f a s = .ok ⟨⟩ t) : (a :: l).forM f s = l.forM f t := by
  rw [List.forM_eq_forM, List.forM_cons, bind_of_ok h]

theorem forM_cons_error {κ : Type} {f : κ → Operation ε σ PUnit} {a : κ} {l : List κ} {s t : σ} {e : ε}
    (h : f a s = .error e t) : (a :: l).forM f s = .error e t := by
  rw [List.forM_eq_forM, List.forM_cons, bind_of_error h]

theorem next_ofExcept (cause : ε' → ε) (y : Except ε' α) (s : σ) : (ofExcept cause y).next s = s := by
  cases y <;> rfl

/-- An answer in another form leaves the same state. -/
theorem next_bind_pure (x : Operation ε σ α) (f : α → β) (s : σ) :
    next (x >>= fun a => pure (f a)) s = x.next s := by
  simp only [next, bind_apply]
  cases x s <;> rfl

theorem outcome_bind_pure (x : Operation ε σ α) (f : α → β) (s : σ) :
    outcome (x >>= fun a => pure (f a)) s = (x.outcome s).map f := by
  simp only [outcome, bind_apply]
  cases x s <;> rfl

theorem error_of_bind_pure {x : Operation ε σ α} {f : α → β} {s t : σ} {e : ε}
    (h : (x >>= fun a => pure (f a)) s = .error e t) : x s = .error e t := by
  rw [bind_apply] at h
  cases hx : x s with
  | ok a u =>
      rw [hx] at h
      cases h
  | error e' u =>
      rw [hx] at h
      cases h
      rfl

theorem onPart_of_ok {part : σ → τ} {withPart : σ → τ → σ} {cause : ε' → ε} {x : Operation ε' τ α} {s : σ}
    {u : τ} {a : α} (h : x (part s) = .ok a u) :
    onPart part withPart cause x s = .ok a (withPart s u) := by
  simp [onPart, h]

theorem onPart_of_error {part : σ → τ} {withPart : σ → τ → σ} {cause : ε' → ε} {x : Operation ε' τ α}
    {s : σ} {u : τ} {e : ε'} (h : x (part s) = .error e u) :
    onPart part withPart cause x s = .error (cause e) (withPart s u) := by
  simp [onPart, h]

end Operation

/-! ## Events and runs -/

variable {κ ε σ α : Type}

/-- A call with the states around it. -/
structure Event (κ ε σ α : Type) where
  before : σ
  call : κ
  outcome : Except ε α
  after : σ

/-- What happens when a call is made. -/
def Event.ofCall (perform : κ → Operation ε σ α) (k : κ) (s : σ) : Event κ ε σ α :=
  ⟨s, k, (perform k).outcome s, (perform k).next s⟩

/-- Calls lead from a first state to another one. -/
inductive Runs (perform : κ → Operation ε σ α) (first : σ) : List (Event κ ε σ α) → σ → Prop
  | none : Runs perform first [] first
  | call {log : List (Event κ ε σ α)} {s : σ} (h : Runs perform first log s) (k : κ) :
      Runs perform first (.ofCall perform k s :: log) ((perform k).next s)

namespace Operation

variable (perform : κ → Operation ε σ α)

/-- The state after calls made in this order. -/
def after (calls : List κ) (s : σ) : σ := calls.foldl (fun s k => (perform k).next s) s

/-- The log of calls made in this order. -/
def events : List κ → σ → List (Event κ ε σ α)
  | [], _ => []
  | k :: calls, s => events calls ((perform k).next s) ++ [.ofCall perform k s]

theorem map_call_events (calls : List κ) (s : σ) :
    (events perform calls s).map Event.call = calls.reverse := by
  induction calls generalizing s with
  | nil => rfl
  | cons k calls ih =>
      rw [events, List.map_append, ih, List.reverse_cons]
      rfl

end Operation

theorem Runs.after {perform : κ → Operation ε σ α} {first s : σ} {log : List (Event κ ε σ α)}
    (h : Runs perform first log s) (calls : List κ) :
    Runs perform first (Operation.events perform calls s ++ log) (Operation.after perform calls s) := by
  induction calls generalizing s log with
  | nil => exact h
  | cons k calls ih =>
      rw [Operation.events, List.append_assoc]
      exact ih (h.call k)

/-- Calls made one after the other are a run. -/
theorem runs_events (perform : κ → Operation ε σ α) (calls : List κ) (s : σ) :
    Runs perform s (Operation.events perform calls s) (Operation.after perform calls s) := by
  have hnone : Runs perform s [] s := .none
  have h := hnone.after calls
  rwa [List.append_nil] at h

/-- What holds of every call in a state that calls keep good holds of all that has happened. -/
theorem Runs.forall_event {perform : κ → Operation ε σ α} {P : σ → Prop} {Q : Event κ ε σ α → Prop} {first s : σ}
    {log : List (Event κ ε σ α)} (hcall : ∀ k {s}, P s → Q (.ofCall perform k s))
    (hkeep : ∀ k {s}, P s → P ((perform k).next s)) (hfirst : P first) (h : Runs perform first log s) :
    (∀ event ∈ log, Q event) ∧ P s := by
  induction h with
  | none => exact ⟨by simp, hfirst⟩
  | call _ k ih => exact ⟨List.forall_mem_cons.2 ⟨hcall k ih.2, ih.1⟩, hkeep k ih.2⟩

/-- Before an event stands the run of those that are older. -/
theorem Runs.earlier {perform : κ → Operation ε σ α} {first s : σ} {newer older : List (Event κ ε σ α)}
    {ev : Event κ ε σ α} (h : Runs perform first (newer ++ ev :: older) s) :
    ∃ k t, ev = .ofCall perform k t ∧ Runs perform first older t := by
  induction newer generalizing s with
  | nil =>
      cases h with
      | call h k => exact ⟨k, _, rfl, h⟩
  | cons ev' newer ih =>
      cases h with
      | call h k => exact ih h

/-! ## What calls give out and take back -/

section Books

variable {ι : Type} (gives takes : Event κ ε σ α → Option ι)

/-- All that calls have given out, the latest first. -/
def givenOut (log : List (Event κ ε σ α)) : List ι := log.filterMap gives

theorem givenOut_cons (e : Event κ ε σ α) (log : List (Event κ ε σ α)) :
    givenOut gives (e :: log) = (gives e).toList ++ givenOut gives log := by
  rw [givenOut, List.filterMap_cons]
  cases gives e <;> rfl

variable [DecidableEq ι]

/-- What calls have given out and have not taken back since. -/
def stillOut : List (Event κ ε σ α) → List ι
  | [] => []
  | e :: log => (gives e).toList ++ (stillOut log).filter (takes e ≠ some ·)

theorem stillOut_cons_of_kept {e : Event κ ε σ α} (h : takes e = none) (log : List (Event κ ε σ α)) :
    stillOut gives takes (e :: log) = (gives e).toList ++ stillOut gives takes log := by
  rw [stillOut, List.filter_eq_self.2 fun _ _ => by simp [h]]

theorem stillOut_sublist (log : List (Event κ ε σ α)) :
    (stillOut gives takes log).Sublist (givenOut gives log) := by
  induction log with
  | nil => exact .refl _
  | cons e log ih =>
      rw [givenOut_cons, stillOut]
      exact (List.Sublist.refl _).append (List.filter_sublist.trans ih)

theorem mem_givenOut {i : ι} {log : List (Event κ ε σ α)} (h : i ∈ stillOut gives takes log) :
    i ∈ givenOut gives log := (stillOut_sublist gives takes log).subset h

end Books

/-! ## Runs in another form -/

section View

variable {ε' τ : Type} (view : σ → τ) (cause : ε → ε')

/-- What an operation answers and leaves, in another form. -/
def Operation.viewed : EStateM.Result ε σ α → EStateM.Result ε' τ α
  | .ok a s => .ok a (view s)
  | .error e s => .error (cause e) (view s)

def Event.viewed (e : Event κ ε σ α) : Event κ ε' τ α :=
  ⟨view e.before, e.call, e.outcome.mapError cause, view e.after⟩

variable {view : σ → τ} {cause : ε → ε'}

theorem Event.viewed_ofCall {perform : κ → Operation ε σ α} {perform' : κ → Operation ε' τ α} {k : κ} {s : σ}
    (h : perform' k (view s) = Operation.viewed view cause (perform k s)) :
    Event.ofCall perform' k (view s) = (Event.ofCall perform k s).viewed view cause := by
  simp only [Event.ofCall, Event.viewed, Operation.outcome, Operation.next, h]
  cases perform k s <;> rfl

/-- If every call does in another form what it does in the first, so does every run. -/
theorem Runs.viewed {P : σ → Prop} {perform : κ → Operation ε σ α} {perform' : κ → Operation ε' τ α} {first s : σ}
    {log : List (Event κ ε σ α)} (hstep : ∀ k {s}, P s → perform' k (view s) = Operation.viewed view cause (perform k s))
    (hkeep : ∀ k {s}, P s → P ((perform k).next s)) (hfirst : P first) (h : Runs perform first log s) :
    Runs perform' (view first) (log.map (Event.viewed view cause)) (view s) ∧ P s := by
  induction h with
  | none => exact ⟨.none, hfirst⟩
  | @call log s _ k ih =>
      have hcall := Event.viewed_ofCall (hstep k ih.2)
      refine ⟨?_, hkeep k ih.2⟩
      rw [List.map_cons, ← hcall]
      have hafter : view ((perform k).next s) = (perform' k).next (view s) := (congrArg Event.after hcall).symm
      rw [hafter]
      exact ih.1.call k

end View

end PdfStore
