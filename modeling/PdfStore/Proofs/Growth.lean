import Mathlib.Order.Defs.Unbundled
import PdfStore.Proofs.Generations
import PdfStore.Proofs.StoreOperations

/-!
# What grows

Whatever is done to a table, and whether or not it fails, the identities that have been given out stay given
out, and those among them that are not valid stay invalid. To the output of a store bodies are added, and
nothing is taken from it.
-/

namespace PdfStore

/-! ## Relations that operations keep -/

namespace Operation

variable {ε ε' σ τ α β κ : Type} {R : σ → σ → Prop} {R' : τ → τ → Prop}

/-- Whether or not an operation fails, the state that it leaves is related to the one before. -/
def Keeps (R : σ → σ → Prop) (x : Operation ε σ α) : Prop := ∀ s, R s (x.next s)

theorem next_bind_of_ok {x : Operation ε σ α} {f : α → Operation ε σ β} {s t : σ} {a : α} (h : x s = .ok a t) :
    (x >>= f).next s = (f a).next t := by
  rw [next, bind_of_ok h]
  rfl

theorem next_bind_of_error {x : Operation ε σ α} {f : α → Operation ε σ β} {s t : σ} {e : ε}
    (h : x s = .error e t) : (x >>= f).next s = t :=
  next_error (bind_of_error h)

theorem next_onPart (part : σ → τ) (withPart : σ → τ → σ) (cause : ε' → ε) (x : Operation ε' τ α) (s : σ) :
    (onPart part withPart cause x).next s = withPart s (x.next (part s)) := by
  cases h : x (part s) with
  | ok a u => rw [next_ok (onPart_of_ok h), next_ok h]
  | error e u => rw [next_error (onPart_of_error h), next_error h]

namespace Keeps

theorem onPart {part : σ → τ} {withPart : σ → τ → σ} {cause : ε' → ε} {x : Operation ε' τ α} (hx : x.Keeps R')
    (h : ∀ s {u}, R' (part s) u → R s (withPart s u)) : (Operation.onPart part withPart cause x).Keeps R := by
  intro s
  rw [next_onPart]
  exact h s (hx (part s))

variable [IsPreorder σ R]

theorem same {x : Operation ε σ α} (h : ∀ s, x.next s = s) : x.Keeps R := fun s => by
  rw [h]
  exact Std.Refl.refl s

theorem pure (a : α) : (Pure.pure a : Operation ε σ α).Keeps R := .same fun _ => rfl

theorem throw (e : ε) : (MonadExcept.throw e : Operation ε σ α).Keeps R := .same fun _ => rfl

theorem get : (MonadState.get : Operation ε σ σ).Keeps R := .same fun _ => rfl

theorem ofExcept (cause : ε' → ε) (y : Except ε' α) : (Operation.ofExcept cause y : Operation ε σ α).Keeps R :=
  .same (next_ofExcept cause y)

theorem of_ok {x : Operation ε σ α} {f : α → Operation ε σ β} (hx : x.Keeps R)
    (hf : ∀ {s a t}, x s = .ok a t → R t ((f a).next t)) : (x >>= f).Keeps R := by
  intro s
  have hs := hx s
  cases h : x s with
  | ok a t =>
      rw [next_ok h] at hs
      rw [next_bind_of_ok h]
      exact IsTrans.trans _ _ _ hs (hf h)
  | error e t =>
      rw [next_error h] at hs
      rwa [next_bind_of_error h]

theorem bind {x : Operation ε σ α} {f : α → Operation ε σ β} (hx : x.Keeps R) (hf : ∀ a, (f a).Keeps R) :
    (x >>= f).Keeps R := hx.of_ok fun {_ a t} _ => hf a t

theorem map {x : Operation ε σ α} (hx : x.Keeps R) (f : α → β) : (do return f (← x)).Keeps R :=
  hx.bind fun a => .pure (f a)

theorem forM {f : κ → Operation ε σ PUnit} {l : List κ} (hf : ∀ a, (f a).Keeps R) : (l.forM f).Keeps R := by
  induction l with
  | nil => exact .pure _
  | cons a rest ih => exact (hf a).bind fun _ => ih

end Keeps

end Operation

/-! ## Tables -/

namespace Table

variable {t u : Table} {id : ObjectId}

def IsChained (t : Table) : Prop := ∃ chain, t.Chained chain

/-- An identity in use. -/
def Live (t : Table) (id : ObjectId) : Prop := t.phase? id.number.toNat = some (true, id.generation)

theorem not_live_iff (h : t.IsChained) : ¬ t.Live id ↔ ∃ e, t.validate id = .error e := by
  obtain ⟨chain, hc⟩ := h
  rw [Live, ← validate_iff_phase hc]
  cases t.validate id <;> simp

/-- A table in which no identity that was given out before comes back. -/
structure Advances (t u : Table) : Prop where
  chained : t.IsChained → u.IsChained
  past : ∀ {id}, t.IsChained → t.Past id → u.Past id
  live : ∀ {id}, t.IsChained → t.Past id → u.Live id → t.Live id

instance : IsPreorder Table Advances where
  refl _ := ⟨fun h => h, fun _ h => h, fun _ _ h => h⟩
  trans _ _ _ h h' := ⟨fun hl => h'.chained (h.chained hl), fun hl hp => h'.past (h.chained hl) (h.past hl hp),
    fun hl hp hv => h.live hl hp (h'.live (h.chained hl) (h.past hl hp) hv)⟩

theorem advances_of (h : ∀ {chain}, t.Chained chain → Advances t u) : Advances t u where
  chained := fun ⟨chain, hc⟩ => (h hc).chained ⟨chain, hc⟩
  past := fun ⟨chain, hc⟩ => (h hc).past ⟨chain, hc⟩
  live := fun ⟨chain, hc⟩ => (h hc).live ⟨chain, hc⟩

/-- An identity that is given out is new, and those before it under its number are over. -/
theorem PhaseChange.advances_reserve (hu : PhaseChange t id.number.toNat true id.generation u)
    (ha : t.Available id) : Advances t u where
  chained := fun _ => hu.chained
  past := fun _ hp => hp.reserve ha hu
  live := fun {id'} _ hp hv => by
    by_cases hn : id'.number = id.number
    · have hlt := hp.lt_of_available ha hn
      rw [Live, hu.phase_self hn] at hv
      have hg : id.generation = id'.generation := by injection hv with hv; injection hv
      rw [hg] at hlt
      exact absurd hlt (UInt16.lt_irrefl _)
    · rwa [Live, hu.phase_of_ne hn] at hv

theorem PhaseChange.advances_release (hu : PhaseChange t id.number.toNat false (t.nextGeneration id.generation) u)
    (hid : t.Live id) : Advances t u where
  chained := fun _ => hu.chained
  past := fun _ hp => hp.release hid hu
  live := fun {id'} _ _ hv => by
    by_cases hn : id'.number = id.number
    · rw [Live, hu.phase_self hn] at hv
      cases hv
    · rwa [Live, hu.phase_of_ne hn] at hv

theorem PhaseChange.advances_same (hu : PhaseChange t id.number.toNat true id.generation u) (hid : t.Live id) :
    Advances t u where
  chained := fun _ => hu.chained
  past := fun _ hp => hp.of_phase hu.limit (hu.phase_eq hid _)
  live := fun _ _ hv => by rwa [Live, hu.phase_eq hid] at hv

/-- What a reservation gives out has not been given out before. -/
theorem fresh_of_reserve (h : t.IsChained) (hok : reserve t = .ok id u) : ¬ t.Past id ∧ u.Past id := by
  obtain ⟨chain, hc⟩ := h
  rcases reserve_phase hc with ⟨id', u', hok', ha, hu⟩ | hfull
  · rw [hok] at hok'
    cases hok'
    exact ⟨fun hp => UInt16.lt_irrefl _ (hp.lt_of_available ha rfl), hu.past_self⟩
  · rw [hok] at hfull
    cases hfull

theorem keeps_reserve : reserve.Keeps Advances := fun t => advances_of fun hc => by
  rcases reserve_phase hc with ⟨id, u, hok, ha, hu⟩ | hfull
  · rw [Operation.next_ok hok]
    exact hu.advances_reserve ha
  · rw [Operation.next_error hfull]
    exact Std.Refl.refl t

theorem keeps_release (id : ObjectId) : (release id).Keeps Advances := fun t => advances_of fun hc => by
  cases hv : t.validate id with
  | ok s =>
      obtain ⟨out, u, hok, hu⟩ := release_phase hc hv
      rw [Operation.next_ok hok]
      exact hu.advances_release ((validate_iff_phase hc).1 ⟨s, hv⟩)
  | error e =>
      rw [Operation.next_error (release_error hv)]
      exact Std.Refl.refl t

theorem keeps_setOffset (id : ObjectId) (o : Nat) : (setOffset id o).Keeps Advances := fun t => advances_of fun hc => by
  cases hv : t.validate id with
  | ok s =>
      obtain ⟨u, hok, hu⟩ := setOffset_phase hc hv o
      rw [Operation.next_ok hok]
      exact hu.advances_same ((validate_iff_phase hc).1 ⟨s, hv⟩)
  | error e =>
      rw [Operation.next_error (setOffset_error hv o)]
      exact Std.Refl.refl t

end Table

/-! ## Stores -/

namespace Store

variable {st st' : Store} {id : ObjectId} {refs : ReferenceTable} {p p' : Reference → ObjectId → Prop}

/-- A body in which references stand under identities that satisfy `p`. -/
def BodyOf (p : Reference → ObjectId → Prop) (b : Bytes) : Prop :=
  ∃ id o c refs, (∀ {r id'}, refs r = some id' → p r id') ∧ Object.toBytes (some refs) o = .ok c ∧
    b = FileText.object id c

/-- A store whose table has advanced, and to whose output bodies have been added. -/
structure Grows (p : Reference → ObjectId → Prop) (st st' : Store) : Prop where
  table : st.table.Advances st'.table
  bodies : ∃ bodies : List Bytes, (∀ b ∈ bodies, BodyOf p b) ∧ st'.output.content = st.output.content ++ bodies.flatten

theorem BodyOf.mono {b : Bytes} (h : BodyOf p b) (hp : ∀ {r id}, p r id → p' r id) : BodyOf p' b := by
  obtain ⟨id, o, c, refs, hrefs, hc, hb⟩ := h
  exact ⟨id, o, c, refs, fun hr => hp (hrefs hr), hc, hb⟩

theorem Grows.mono (h : Grows p st st') (hp : ∀ {r id}, p r id → p' r id) : Grows p' st st' := by
  obtain ⟨bodies, hb, hcontent⟩ := h.bodies
  exact ⟨h.table, bodies, fun b hmem => (hb b hmem).mono hp, hcontent⟩

theorem grows_of_table (ht : st.table.Advances st'.table) (ho : st'.output = st.output) : Grows p st st' :=
  ⟨ht, [], by simp, by simp [ho]⟩

instance : IsPreorder Store (Grows p) where
  refl st := grows_of_table (Std.Refl.refl st.table) rfl
  trans st st' st'' h h' := by
    obtain ⟨bodies, hb, hcontent⟩ := h.bodies
    obtain ⟨bodies', hb', hcontent'⟩ := h'.bodies
    refine ⟨IsTrans.trans _ _ _ h.table h'.table, bodies ++ bodies', fun b hmem => ?_, ?_⟩
    · exact (List.mem_append.1 hmem).elim (hb b) (hb' b)
    · rw [hcontent', hcontent, List.flatten_append, List.append_assoc]

theorem keeps_onTable {α : Type} {x : Operation TableError Table α} (hx : x.Keeps Table.Advances) :
    (onTable x).Keeps (Grows p) :=
  hx.onPart fun _ _ ht => grows_of_table ht rfl

theorem keeps_modify {f : Store → Store} (ht : ∀ st, (f st).table = st.table) (ho : ∀ st, (f st).output = st.output) :
    (modify f : Operation StoreError Store PUnit).Keeps (Grows p) := fun st =>
  grows_of_table (by rw [show Operation.next (modify f) st = f st from rfl, ht]; exact Std.Refl.refl _) (ho st)

theorem keeps_reserve : reserve.Keeps (Grows p) := keeps_onTable Table.keeps_reserve

theorem keeps_delete (id : ObjectId) : (delete id).Keeps (Grows p) :=
  (keeps_onTable (Table.keeps_release id)).bind fun _ =>
    (keeps_modify (fun _ => by rfl) fun _ => by rfl).bind fun _ => .pure _

/-- What has been deleted is not valid any more. -/
theorem not_live_of_delete {out : Release} (h : st.WellFormed) (hok : delete id st = .ok out st') :
    ¬ st'.table.Live id := by
  by_cases habs : st.standing id = .absent
  · obtain ⟨e, he⟩ := delete_absent habs
    rw [hok] at he
    cases he
  · obtain ⟨out', st₁, hok', hb⟩ := delete_live h habs
    rw [hok] at hok'
    cases hok'
    exact (Table.not_live_iff hb.wellFormed.chained).2 (validate_of_absent hb.self)

theorem keeps_append {b : Bytes} (hb : BodyOf p b) : (append b).Keeps (Grows p) := fun st => by
  rcases append_cases b st with ⟨o, hok, -, hcontent⟩ | ⟨he, -⟩
  · rw [Operation.next_ok hok]
    exact ⟨Std.Refl.refl st.table, [b], by simpa using hb, by simpa using hcontent⟩
  · rw [Operation.next_error he]
    exact Std.Refl.refl st

theorem keeps_appendBody (id : ObjectId) (o : Object) (hrefs : ∀ {r id}, refs r = some id → p r id) :
    (appendBody id o refs).Keeps (Grows p) := by
  refine Operation.Keeps.of_ok (.ofExcept _ _) fun {_ c t} hc => ?_
  have hb : BodyOf p (body id c) :=
    ⟨id, o, c, refs, hrefs, (Operation.ofExcept_ok hc).1, FileText.object_eq id c⟩
  refine Operation.Keeps.bind (keeps_append hb) (fun offset => ?_) t
  exact (keeps_onTable (Table.keeps_setOffset id offset)).bind fun _ =>
    (keeps_modify (fun _ => by rfl) fun _ => by rfl).bind fun _ => .pure offset

theorem keeps_checked (id : ObjectId) : (checked id).Keeps (Grows p) := Operation.Keeps.get.bind fun _ => .ofExcept _ _

theorem keeps_writeAt (id : ObjectId) (o : Object) (hrefs : ∀ {r id}, refs r = some id → p r id) :
    (writeAt id o refs).Keeps (Grows p) := by
  refine (keeps_checked id).bind fun slot => ?_
  cases slot.isPending with
  | true => exact keeps_appendBody id o hrefs
  | false => exact .throw _

theorem keeps_replaceAt (id : ObjectId) (o : Object) (hrefs : ∀ {r id}, refs r = some id → p r id) :
    (replaceAt id o refs).Keeps (Grows p) :=
  (keeps_checked id).bind fun _ => keeps_appendBody id o hrefs

theorem keeps_setCatalog (id : ObjectId) : (setCatalog id).Keeps (Grows p) :=
  (keeps_checked id).bind fun _ => keeps_modify (fun _ => rfl) fun _ => rfl

theorem keeps_setInfo (id : ObjectId) : (setInfo id).Keeps (Grows p) :=
  (keeps_checked id).bind fun _ => keeps_modify (fun _ => rfl) fun _ => rfl

end Store

end PdfStore
