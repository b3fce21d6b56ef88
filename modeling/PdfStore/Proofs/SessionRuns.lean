import PdfStore.Proofs.StoreRuns
import PdfStore.Proofs.Writing

/-!
# Runs of a session

The calls of a session in any order, with what the log says of a reference: the last object written to it,
and the object that it has now, which it loses with its last binding.
-/

namespace PdfStore

/-- Whether a reference is bound to any store. -/
def Bindings.isBound (t : Bindings) (r : Reference) : Bool := t.entries[r.index]?.any Binding.isBound

namespace Session

inductive Call
  | openStore (st : { st : Store // st.Reachable })
  | createStore (device : Device) (config : Config)
  | newReference
  | newReferenceIn (places : List StoreId)
  | identityFor (r : Reference) (i : StoreId)
  | write (r : Reference) (object : Object)
  | writeNew (i : StoreId) (object : Object)
  | setCatalog (i : StoreId) (r : Reference)
  | setInfo (i : StoreId) (r : Reference)
  | delete (r : Reference) (i : StoreId)
  | close (i : StoreId)
  | register (c : Codec)

inductive Answer
  | store (i : StoreId)
  | reference (r : Reference)
  | identity (id : ObjectId)
  | released (outcome : Release)
  | closed (report : CloseReport)
  | done

def perform : Call → Operation SessionError Session Answer
  | .openStore st => do return .store (← openStore st.1)
  | .createStore device config => do return .store (← createStore device config)
  | .newReference => do return .reference (← newReference)
  | .newReferenceIn places => do return .reference (← newReferenceIn places)
  | .identityFor r i => do return .identity (← identityFor r i)
  | .write r o => do write r o; return .done
  | .writeNew i o => do return .reference (← writeNew i o)
  | .setCatalog i r => do setCatalog i r; return .done
  | .setInfo i r => do setInfo i r; return .done
  | .delete r i => do return .released (← delete r i)
  | .close i => do return .closed (← close i)
  | .register c => do modify fun s => (register c s).2; return .done

abbrev Log := List (Event Call SessionError Session Answer)

/-- A successful write. -/
def written? (e : Event Call SessionError Session Answer) : Option (Reference × Object) :=
  match e.call, e.outcome with
  | .write r o, .ok _ => some (r, o)
  | .writeNew _ o, .ok (.reference r) => some (r, o)
  | _, _ => none

/-- Whether an event tells that a table is full. -/
def fills (e : Event Call SessionError Session Answer) : Bool :=
  match e.outcome with
  | .error (.store (.table .full)) => true
  | _ => false

/-- Whether a reference loses its last binding in an event. -/
def unbinds (e : Event Call SessionError Session Answer) (r : Reference) : Bool :=
  e.before.bindings.isBound r && !e.after.bindings.isBound r

/-- The object of the last successful write to a reference, which is gone with its last binding. -/
def current : Log → Reference → Option Object
  | [], _ => none
  | e :: log, r =>
    if unbinds e r then none
    else
      match written? e with
      | some (q, o) => if r = q then some o else current log r
      | none => current log r

variable {s t : Session} {i : StoreId} {r : Reference} {k : Call} {e : SessionError}

theorem not_fills (hf : fills (.ofCall perform k s) = false) (he : perform k s = .error e t) :
    e ≠ .store (.table .full) := by
  rintro rfl
  rw [fills, Event.ofCall, Operation.outcome_error he] at hf
  cases hf

theorem isBound_iff (h : s.WellFormed) : s.bindings.isBound r = true ↔ ∃ i, s.place i r ≠ .absent := by
  rw [Bindings.isBound]
  cases hb : s.bindings.entries[r.index]? with
  | none =>
      have hview : ∀ i, s.bindings.view i r = none := fun i => by
        rw [Bindings.view, hb]
        rfl
      simp [place_unbound (hview _)]
  | some b =>
      have hmem : ∀ {i id}, (i, id) ∈ b.identities.entries ↔ s.bindings.view i r = some id := mem_identities h hb
      rw [Option.any_some, Binding.isBound, OrderedMap.isEmpty]
      cases hl : b.identities.entries with
      | nil =>
          refine ⟨fun hf => by simp at hf, fun hbound => ?_⟩
          obtain ⟨i, hp⟩ := hbound
          obtain ⟨id, hv⟩ := view_of_place hp
          have := hmem.2 hv
          rw [hl] at this
          cases this
      | cons e rest =>
          have he : (e.1, e.2) ∈ b.identities.entries := by
            rw [hl]
            exact List.mem_cons_self
          exact ⟨fun _ => ⟨e.1, h.bound (hmem.1 he)⟩, fun _ => rfl⟩

end Session

end PdfStore
