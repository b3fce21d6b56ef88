import PdfStore.Session.Basic

/-!
# Binding references to stores

A reference that is bound to a store takes its object along, the object the references it holds, and so
on. Each step of the transfer delivers one object; it ends because an object is added to those to be
delivered only with a reference that has just been bound.
-/

namespace PdfStore.Session

/-- An object that has to be written to a store. -/
structure Delivery where
  id : ObjectId
  object : Object

/-- The object that a place holds, if there is one. -/
def objectAt (origin : StoreId × ObjectId) (s : Session) : Except SessionError (Option Object) := do
  let st ← s.store origin.1
  return (st.resolve origin.2).toOption

/-- The identity of a reference in a store, reserved if it has none; then also what has to be delivered. -/
def bindInto (i : StoreId) (r : Reference) : Operation SessionError Session (ObjectId × List Delivery) := do
  let b ← look (·.binding r)
  match b.identity? i with
  | some id => return (id, [])
  | none =>
    let id ← onStore i Store.reserve
    onBindings (Bindings.bind r i id)
    match b.origin? with
    | none => return (id, [])
    | some origin =>
      match ← look (objectAt origin) with
      | none => return (id, [])
      | some object => return (id, [⟨id, object⟩])

/-- Binds references one after the other, and puts what has to be delivered in front of `pending`. -/
def bindAll (i : StoreId) : List Reference → List Delivery → Operation SessionError Session (List Delivery)
  | [], pending => return pending
  | r :: rest, pending => do
    let (_, more) ← bindInto i r
    bindAll i rest (more ++ pending)

/-- Writes an object under an identity, again if need be. -/
def put (i : StoreId) (d : Delivery) : Operation SessionError Session Unit := do
  let refs ← look (·.table i)
  onStore i do
    if (← get).isWritten d.id then
      let _ ← Store.replaceAt d.id d.object refs
    else
      let _ ← Store.writeAt d.id d.object refs

/-- Delivers one object, after its references have been bound. -/
def deliver (i : StoreId) (d : Delivery) (pending : List Delivery) :
    Operation SessionError Session (List Delivery) := do
  let pending ← bindAll i d.object.references pending
  put i d
  return pending

/-! ## The measure of a transfer -/

/-- The references that are not bound to a store, and so may still bring objects along. -/
def unbound (s : Session) (i : StoreId) : Nat := s.bindings.unbound i

theorem bindings_onStore {α : Type} {i : StoreId} {x : Operation StoreError Store α} {s t : Session} {a : α}
    (h : onStore i x s = .ok a t) : t.bindings = s.bindings := by
  simp only [onStore] at h
  split at h
  · cases h
  · split at h
    · cases h; rfl
    · cases h

theorem look_ok {α : Type} {f : Session → Except SessionError α} {s t : Session} {a : α}
    (h : look f s = .ok a t) : f s = .ok a ∧ s = t := by
  obtain ⟨_, _, hg, h⟩ := Operation.bind_ok h
  cases hg
  exact Operation.ofExcept_ok h

/-- A reference bound to a store for the first time is one fewer without it. -/
theorem unbound_bind_eq {r : Reference} {i : StoreId} {id : ObjectId} {t u : Bindings} {b : Binding} {a : Unit}
    (hb : t.get r = .ok b) (hn : b.identity? i = none) (h : Bindings.bind r i id t = .ok a u) :
    u.unbound i + 1 ≤ t.unbound i := by
  obtain ⟨_, _, h₁, hu⟩ := Operation.bind_ok h
  obtain ⟨_, _, hg, h₂⟩ := Operation.bind_ok h₁
  cases hg
  obtain ⟨_, _, he, h₃⟩ := Operation.bind_ok h₂
  obtain ⟨_, rfl⟩ := Operation.ofExcept_ok he
  obtain ⟨_, _, hs, h₄⟩ := Operation.bind_ok h₃
  cases hs
  cases h₄
  cases hu
  cases ho : t.entries[r.index]? with
  | none =>
    simp only [Bindings.get, ho] at hb
    cases hb
  | some c =>
    simp only [Bindings.get, ho] at hb
    cases hb
    exact Nat.le_of_eq (Bindings.unbound_bind id ho hn)

/-- With every object it adds, binding a reference uses up a reference that was not bound. -/
theorem unbound_bindInto {i : StoreId} {r : Reference} {s t : Session} {id : ObjectId}
    {more : List Delivery} (h : bindInto i r s = .ok (id, more) t) :
    t.unbound i + more.length ≤ s.unbound i := by
  obtain ⟨b, _, hb, h₁⟩ := Operation.bind_ok h
  obtain ⟨hg, rfl⟩ := look_ok hb
  cases hn : b.identity? i with
  | some _ =>
    simp only [hn] at h₁
    cases h₁
    simp
  | none =>
    simp only [hn] at h₁
    obtain ⟨_, s₁, hr, h₂⟩ := Operation.bind_ok h₁
    obtain ⟨_, s₂, hu, h₃⟩ := Operation.bind_ok h₂
    obtain ⟨u, hv, rfl⟩ := Operation.onPart_ok hu
    have hs₂ : u.unbound i + 1 ≤ s.bindings.unbound i :=
      unbound_bind_eq hg hn (bindings_onStore hr ▸ hv)
    cases ho : b.origin? with
    | none =>
      simp only [ho] at h₃
      cases h₃
      exact Nat.le_of_lt hs₂
    | some origin =>
      simp only [ho] at h₃
      obtain ⟨found, _, hf, h₄⟩ := Operation.bind_ok h₃
      obtain ⟨_, rfl⟩ := look_ok hf
      cases found <;> cases h₄
      · exact Nat.le_of_lt hs₂
      · exact hs₂

theorem unbound_bindAll {i : StoreId} {refs : List Reference} {pending result : List Delivery}
    {s t : Session} (h : bindAll i refs pending s = .ok result t) :
    t.unbound i + result.length ≤ s.unbound i + pending.length := by
  induction refs generalizing pending s with
  | nil =>
    cases h
    exact Nat.le_refl _
  | cons r rest ih =>
    obtain ⟨⟨id, more⟩, u, hb, h⟩ := Operation.bind_ok h
    have h₁ := unbound_bindInto hb
    have h₂ := ih h
    simp only [List.length_append] at h₂
    omega

theorem bindings_put {i : StoreId} {d : Delivery} {s t : Session} {a : Unit}
    (h : put i d s = .ok a t) : t.bindings = s.bindings := by
  obtain ⟨_, _, hl, hp⟩ := Operation.bind_ok h
  obtain ⟨_, rfl⟩ := look_ok hl
  exact bindings_onStore hp

theorem unbound_deliver {i : StoreId} {d : Delivery} {pending result : List Delivery} {s t : Session}
    (h : deliver i d pending s = .ok result t) :
    t.unbound i + result.length ≤ s.unbound i + pending.length := by
  obtain ⟨_, u, hb, h⟩ := Operation.bind_ok h
  obtain ⟨_, _, hp, h⟩ := Operation.bind_ok h
  obtain ⟨rfl, rfl⟩ := Operation.pure_ok h
  have := unbound_bindAll hb
  simp only [unbound, bindings_put hp] at this ⊢
  exact this

/-! ## The transfer -/

def drain (i : StoreId) (pending : List Delivery) (s : Session) : EStateM.Result SessionError Session Unit :=
  match pending with
  | [] => .ok () s
  | d :: rest =>
    match _h : deliver i d rest s with
    | .ok pending t => drain i pending t
    | .error e t => .error e t
termination_by s.unbound i + pending.length
decreasing_by
  have := unbound_deliver _h
  simp only [List.length_cons]
  omega

/-- The identity of a reference in a store. If it has none, it gets one, and its object comes along. -/
def identityFor (r : Reference) (i : StoreId) : Operation SessionError Session ObjectId := do
  let (id, pending) ← bindInto i r
  drain i pending
  return id

/-- A new reference that is bound to stores. -/
def newReferenceIn (places : List StoreId) : Operation SessionError Session Reference := do
  places.forM fun i => do
    let _ ← look (·.store i)
  let r ← newReference
  places.forM fun i => do
    let _ ← identityFor r i
  return r

end PdfStore.Session
