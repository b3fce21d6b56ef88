import PdfStore.Object.Written
import PdfStore.Operation
import PdfStore.Session.Error

/-!
# Bindings

A reference is bound to any number of stores, in each under an identity, and has at most one source, the
store that its object is taken from. The bindings of a session stand in the order of the references.
-/

namespace PdfStore

structure Binding where
  identities : OrderedMap StoreId ObjectId
  source : Option StoreId

namespace Binding

def empty : Binding := ⟨.empty, none⟩

def identity? (b : Binding) (s : StoreId) : Option ObjectId := b.identities.get? s

def isBound (b : Binding) : Bool := !b.identities.isEmpty

/-- The source and the identity there. -/
def origin? (b : Binding) : Option (StoreId × ObjectId) :=
  b.source.bind fun s => (b.identity? s).map (s, ·)

def bind (b : Binding) (s : StoreId) (id : ObjectId) : Binding :=
  { b with identities := b.identities.insert s id }

/-- Without a store, which is its source no more. -/
def unbind (b : Binding) (s : StoreId) : Binding :=
  ⟨b.identities.erase s, if b.source = some s then none else b.source⟩

end Binding

structure Bindings where
  entries : List Binding

namespace Bindings

def empty : Bindings := ⟨[]⟩

def isEmpty (t : Bindings) : Bool := t.entries.isEmpty

def references (t : Bindings) : List Reference := (List.range t.entries.length).map Reference.mk

def get (t : Bindings) (r : Reference) : Except SessionError Binding :=
  match t.entries[r.index]? with
  | some b => .ok b
  | none => .error (.unknownReference r)

/-- The identities that the references have in a store. -/
def view (t : Bindings) (s : StoreId) : ReferenceTable := fun r =>
  t.entries[r.index]?.bind fun b => b.identity? s

/-- The number of references that are not bound to a store. -/
def unbound (t : Bindings) (s : StoreId) : Nat := t.entries.countP fun b => (b.identity? s).isNone

def modify (t : Bindings) (r : Reference) (f : Binding → Binding) : Bindings :=
  ⟨t.entries.modify r.index f⟩

/-! ## Operations -/

def create : Operation SessionError Bindings Reference := do
  let t ← MonadState.get
  let n := t.entries.length
  if maxHandles ≤ n then throw (.arenaFull "reference")
  set (⟨t.entries ++ [.empty]⟩ : Bindings)
  return ⟨n⟩

/-- Changes the binding of a reference and answers what it was. -/
def change (r : Reference) (f : Binding → Binding) : Operation SessionError Bindings Binding := do
  let t ← MonadState.get
  let b ← Operation.ofExcept (fun e => e) (t.get r)
  set (t.modify r f)
  return b

def bind (r : Reference) (s : StoreId) (id : ObjectId) : Operation SessionError Bindings Unit := do
  let _ ← change r (·.bind s id)

/-- Takes a store from a reference and answers the identity it had there. -/
def unbind (r : Reference) (s : StoreId) : Operation SessionError Bindings (Option ObjectId) := do
  let b ← change r (·.unbind s)
  return b.identity? s

def setSource (r : Reference) (source : Option StoreId) : Operation SessionError Bindings Unit := do
  let _ ← change r fun b => { b with source := source }

/-- Takes a store from all references bound to it; the references, and whether it was their source. -/
def dropStore (s : StoreId) (t : Bindings) : List (Reference × Bool) × Bindings :=
  let isBoundTo (b : Binding) : Bool := (b.identity? s).isSome
  let affected := t.entries.zipIdx.filterMap fun (b, n) =>
    if isBoundTo b then some (⟨n⟩, b.source = some s) else none
  (affected, ⟨t.entries.map fun b => if isBoundTo b then b.unbind s else b⟩)

/-! ## How binding lowers the number of unbound references -/

theorem countP_modify_lt {p : Binding → Bool} {f : Binding → Binding} {l : List Binding} {n : Nat}
    {b : Binding} (hb : l[n]? = some b) (h : p b) (hf : p (f b) = false) :
    (l.modify n f).countP p + 1 = l.countP p := by
  induction l generalizing n with
  | nil => simp at hb
  | cons c rest ih =>
    cases n with
    | zero =>
      simp only [List.getElem?_cons_zero, Option.some.injEq] at hb
      subst hb
      simp [h, hf]
    | succ n =>
      simp only [List.getElem?_cons_succ] at hb
      simp only [List.modify_succ_cons, List.countP_cons]
      have := ih hb
      omega

/-- A reference bound to a store for the first time is one fewer without it. -/
theorem unbound_bind {t : Bindings} {r : Reference} {s : StoreId} {b : Binding} (id : ObjectId)
    (hb : t.entries[r.index]? = some b) (h : b.identity? s = none) :
    (t.modify r (·.bind s id)).unbound s + 1 = t.unbound s := by
  refine countP_modify_lt hb (by simp [h]) ?_
  simp [Binding.identity?, Binding.bind, OrderedMap.get?_insert_self]

end Bindings

end PdfStore
