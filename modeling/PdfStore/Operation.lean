/-!
# Operations

An operation changes a state and answers a value, or fails with an error. What it has changed before a
failure stays changed.
-/

namespace PdfStore

abbrev Operation (ε σ α : Type) := EStateM ε σ α

namespace Operation

variable {ε ε' σ τ α : Type}

/-- An answer that does not need the state. -/
def ofExcept (cause : ε' → ε) : Except ε' α → Operation ε σ α
  | .ok a => pure a
  | .error e => throw (cause e)

/-- An operation on a part of the state. -/
def onPart (part : σ → τ) (withPart : σ → τ → σ) (cause : ε' → ε) (x : Operation ε' τ α) :
    Operation ε σ α := fun s =>
  match x (part s) with
  | .ok a t => .ok a (withPart s t)
  | .error e t => .error (cause e) (withPart s t)

/-- The answer and the state after it, if nothing fails. -/
def answer? (x : Operation ε σ α) (s : σ) : Except ε (α × σ) :=
  match x s with
  | .ok a t => .ok (a, t)
  | .error e _ => .error e

/-- What an operation answers. -/
def outcome (x : Operation ε σ α) (s : σ) : Except ε α :=
  match x s with
  | .ok a _ => .ok a
  | .error e _ => .error e

/-- The state that an operation leaves behind. -/
def next (x : Operation ε σ α) (s : σ) : σ :=
  match x s with
  | .ok _ t => t
  | .error _ t => t

/-! ## Steps of an operation -/

variable {β : Type}

theorem bind_apply (x : Operation ε σ α) (f : α → Operation ε σ β) (s : σ) :
    (x >>= f) s = match x s with
      | .ok a t => f a t
      | .error e t => .error e t := rfl

@[simp] theorem pure_apply (a : α) (s : σ) : (pure a : Operation ε σ α) s = .ok a s := rfl

@[simp] theorem get_apply (s : σ) : (get : Operation ε σ σ) s = .ok s s := rfl

theorem bind_of_ok {x : Operation ε σ α} {f : α → Operation ε σ β} {s t : σ} {a : α} (h : x s = .ok a t) :
    (x >>= f) s = f a t := by
  rw [bind_apply, h]

theorem bind_of_error {x : Operation ε σ α} {f : α → Operation ε σ β} {s t : σ} {e : ε}
    (h : x s = .error e t) : (x >>= f) s = .error e t := by
  rw [bind_apply, h]

theorem outcome_ok {x : Operation ε σ α} {s t : σ} {a : α} (h : x s = .ok a t) : x.outcome s = .ok a := by
  simp [outcome, h]

theorem outcome_error {x : Operation ε σ α} {s t : σ} {e : ε} (h : x s = .error e t) :
    x.outcome s = .error e := by
  simp [outcome, h]

theorem next_ok {x : Operation ε σ α} {s t : σ} {a : α} (h : x s = .ok a t) : x.next s = t := by
  simp [next, h]

theorem next_error {x : Operation ε σ α} {s t : σ} {e : ε} (h : x s = .error e t) : x.next s = t := by
  simp [next, h]

/-! ## Steps of an operation that does not fail -/

theorem bind_ok {x : Operation ε σ α} {f : α → Operation ε σ β} {s u : σ} {b : β}
    (h : (x >>= f) s = .ok b u) : ∃ a t, x s = .ok a t ∧ f a t = .ok b u := by
  change EStateM.bind x f s = _ at h
  simp only [EStateM.bind] at h
  split at h
  · exact ⟨_, _, ‹_›, h⟩
  · cases h

theorem pure_ok {s t : σ} {a b : α} (h : (pure a : Operation ε σ α) s = .ok b t) : a = b ∧ s = t := by
  cases h
  exact ⟨rfl, rfl⟩

theorem ofExcept_ok {cause : ε' → ε} {r : Except ε' α} {s t : σ} {a : α}
    (h : ofExcept cause r s = .ok a t) : r = .ok a ∧ s = t := by
  cases r with
  | ok b => cases h; exact ⟨rfl, rfl⟩
  | error e => cases h

theorem onPart_ok {part : σ → τ} {withPart : σ → τ → σ} {cause : ε' → ε} {x : Operation ε' τ α} {s t : σ}
    {a : α} (h : onPart part withPart cause x s = .ok a t) :
    ∃ u, x (part s) = .ok a u ∧ t = withPart s u := by
  simp only [onPart] at h
  split at h
  · cases h
    exact ⟨_, ‹_›, rfl⟩
  · cases h

end Operation

end PdfStore
