import PdfStore.Proofs.SessionContents

/-!
# Dropping a store

A store is taken from all references at once (`Bindings.dropStore`) or from one reference after the other
(`Bindings.unbindAll`). Both leave the same bindings, and the same sources but for the references that have the store as
their source without being bound there (`Bindings.Stray`): dropping passes them by. The operations on bindings allow
that; a session does not come to it.
-/

namespace PdfStore

namespace Bindings

variable {t u : Bindings} {r q : Reference} {i j s : StoreId} {l : List Reference}

/-! ## Runs of bindings -/

inductive Call
  | create
  | bind (r : Reference) (s : StoreId) (id : ObjectId)
  | unbind (r : Reference) (s : StoreId)
  | setSource (r : Reference) (source : Option StoreId)
  | dropStore (s : StoreId)

inductive Answer
  | reference (r : Reference)
  | identity (id : Option ObjectId)
  | affected (references : List (Reference × Bool))
  | done

def perform : Call → Operation SessionError Bindings Answer
  | .create => return .reference (← create)
  | .bind r s id => do bind r s id; return .done
  | .unbind r s => return .identity (← unbind r s)
  | .setSource r source => do setSource r source; return .done
  | .dropStore s => return .affected (← modifyGet (dropStore s))

abbrev Log := List (Event Call SessionError Bindings Answer)

theorem next_bind (r : Reference) (s : StoreId) (id : ObjectId) (t : Bindings) :
    (perform (.bind r s id)).next t = t.modify r (·.bind s id) := by
  rw [← next_change r (·.bind s id) t]
  exact (Operation.next_bind_pure _ _ _).trans (Operation.next_bind_pure _ _ _)

theorem next_unbind (r : Reference) (s : StoreId) (t : Bindings) :
    (perform (.unbind r s)).next t = t.modify r (·.unbind s) := by
  rw [← next_change r (·.unbind s) t]
  exact (Operation.next_bind_pure _ _ _).trans (Operation.next_bind_pure _ _ _)

theorem next_setSource (r : Reference) (source : Option StoreId) (t : Bindings) :
    (perform (.setSource r source)).next t = t.modify r fun b => { b with source := source } := by
  rw [← next_change r (fun b => { b with source := source }) t]
  exact (Operation.next_bind_pure _ _ _).trans (Operation.next_bind_pure _ _ _)

theorem next_dropStore (s : StoreId) (t : Bindings) :
    (perform (.dropStore s)).next t = (dropStore s t).2 := rfl

theorem ascending_next_create (h : t.Ascending) : ((perform .create).next t).Ascending := by
  have hnext : (perform .create).next t = create.next t := Operation.next_bind_pure _ _ _
  rw [hnext]
  by_cases hroom : t.entries.length < maxHandles
  · rw [Operation.next_ok (create_ok hroom)]
    exact ascending_create h
  · rw [Operation.next_error (create_full (Nat.le_of_not_lt hroom))]
    exact h

/-- Whatever is called, the identities of a reference stay in the order of the stores. -/
theorem ascending_next (k : Call) (h : t.Ascending) : ((perform k).next t).Ascending := by
  cases k with
  | create => exact ascending_next_create h
  | bind r s id => exact next_bind r s id t ▸ ascending_bind h
  | unbind r s => exact next_unbind r s t ▸ ascending_unbind h
  | setSource r source => exact next_setSource r source t ▸ ascending_setSource h source
  | dropStore s => exact next_dropStore s t ▸ ascending_dropStore h

theorem ascending_of_runs {log : Log} (h : Runs perform .empty log t) : t.Ascending := by
  induction h with
  | none => exact fun b hb => absurd hb List.not_mem_nil
  | call _ k ih => exact ascending_next k ih

/-! ## One reference after the other -/

/-- The bindings after a store has been taken from each reference. -/
def unbindAll (s : StoreId) (t : Bindings) : Bindings :=
  Operation.after perform (t.references.map (Call.unbind · s)) t

theorem nodup_references (t : Bindings) : t.references.Nodup :=
  List.Pairwise.map Reference.mk (fun _ _ hne h => hne (congrArg Reference.index h)) List.nodup_range

theorem mem_references_iff : r ∈ t.references ↔ t.Knows r := by
  rw [references, List.mem_map]
  constructor
  · rintro ⟨n, hn, rfl⟩
    exact List.mem_range.1 hn
  · exact fun h => ⟨r.index, List.mem_range.2 h, rfl⟩

theorem ext_entries (h : ∀ q : Reference, t.entries[q.index]? = u.entries[q.index]?) : t = u := by
  obtain ⟨l⟩ := t
  obtain ⟨l'⟩ := u
  exact congrArg Bindings.mk (List.ext_getElem? fun n => h ⟨n⟩)

/-- Taking a store from some references changes their bindings and no other. -/
theorem entries_after_unbind (hl : l.Nodup) (s : StoreId) (t : Bindings) (q : Reference) :
    (Operation.after perform (l.map (Call.unbind · s)) t).entries[q.index]? =
      if q ∈ l then t.entries[q.index]?.map (·.unbind s) else t.entries[q.index]? := by
  induction l generalizing t with
  | nil => simp [Operation.after]
  | cons r l ih =>
      obtain ⟨hr, hl⟩ := List.nodup_cons.1 hl
      have hstep : Operation.after perform ((r :: l).map (Call.unbind · s)) t =
          Operation.after perform (l.map (Call.unbind · s)) (t.modify r (·.unbind s)) := by
        rw [← next_unbind]
        rfl
      rw [hstep, ih hl, entries_modify]
      by_cases hq : q = r
      · subst hq
        simp [hr]
      · simp [hq]

theorem unbindAll_eq_map (s : StoreId) (t : Bindings) : unbindAll s t = ⟨t.entries.map (·.unbind s)⟩ := by
  refine ext_entries fun q => ?_
  rw [unbindAll, entries_after_unbind (nodup_references t), List.getElem?_map]
  by_cases hq : t.Knows q
  · rw [if_pos (mem_references_iff.2 hq)]
  · rw [if_neg fun h => hq (mem_references_iff.1 h), List.getElem?_eq_none (Nat.le_of_not_lt hq)]
    rfl

/-! ## What dropping leaves -/

/-- A store is the source of a reference that is not bound there. -/
def Stray (t : Bindings) (s : StoreId) (r : Reference) : Prop := t.source r = some s ∧ t.view s r = none

/-- Without a store as the source of any reference. -/
def clearSource (s : StoreId) (t : Bindings) : Bindings :=
  ⟨t.entries.map fun b => { b with source := if b.source = some s then none else b.source }⟩

theorem source_clearSource (s : StoreId) (t : Bindings) (r : Reference) :
    (clearSource s t).source r = if t.source r = some s then none else t.source r := by
  rw [clearSource, source, List.getElem?_map, source]
  cases t.entries[r.index]? <;> simp

theorem clearSource_of_unused (h : ∀ r, t.source r ≠ some s) : clearSource s t = t := by
  refine ext_entries fun q => ?_
  rw [clearSource, List.getElem?_map]
  cases hb : t.entries[q.index]? with
  | none => rfl
  | some b =>
      have hsource : b.source ≠ some s := source_of_entry hb ▸ h q
      rw [Option.map_some, if_neg hsource]

theorem clearSource_eq_self_iff : clearSource s t = t ↔ ∀ r, t.source r ≠ some s := by
  refine ⟨fun h r hr => ?_, clearSource_of_unused⟩
  have hclear := source_clearSource s t r
  rw [h, if_pos hr, hr] at hclear
  cases hclear

theorem clearSource_dropped (s : StoreId) (b : Binding) :
    { dropped s b with source := if (dropped s b).source = some s then none else (dropped s b).source } = b.unbind s := by
  rw [dropped]
  split
  · simp [Binding.unbind]
  · rename_i h
    have hkeep : b.identities.erase s = b.identities :=
      OrderedMap.erase_of_get?_none (Option.not_isSome_iff_eq_none.1 h)
    rw [Binding.unbind, hkeep]

/-- Taking a store from each reference is dropping it and clearing the sources that are left. -/
theorem unbindAll_eq_clearSource (s : StoreId) (t : Bindings) :
    unbindAll s t = clearSource s (dropStore s t).2 := by
  rw [unbindAll_eq_map, dropStore_entries, clearSource, List.map_map]
  exact congrArg Bindings.mk (List.map_congr_left fun b _ => (clearSource_dropped s b).symm)

theorem source_dropStore_eq_iff (s : StoreId) (t : Bindings) (r : Reference) :
    (dropStore s t).2.source r = some s ↔ t.Stray s r := by
  rw [source_dropStore, Stray, ← Option.not_isSome_iff_eq_none]
  by_cases h : t.source r = some s <;> by_cases hv : (t.view s r).isSome <;> simp [h, hv]

theorem source_dropStore_of_ne (h : i ≠ s) (t : Bindings) (r : Reference) :
    (dropStore s t).2.source r = some i ↔ t.source r = some i := by
  rw [source_dropStore]
  split
  · rename_i hs
    rw [hs.1]
    simp [h.symm]
  · rfl

theorem dropStore_eq_unbindAll_iff (s : StoreId) (t : Bindings) :
    (dropStore s t).2 = unbindAll s t ↔ ∀ r, ¬t.Stray s r := by
  rw [unbindAll_eq_clearSource, eq_comm, clearSource_eq_self_iff]
  exact forall_congr' fun r => not_congr (source_dropStore_eq_iff s t r)

theorem pairwise_affected (s : StoreId) (t : Bindings) :
    (dropStore s t).1.Pairwise fun a b => a.1.index < b.1.index := by
  have hplaces : t.entries.zipIdx.Pairwise fun a b => a.2 < b.2 := by
    rw [← List.pairwise_map (f := Prod.snd), List.zipIdx_map_snd]
    exact List.pairwise_lt_range'
  refine hplaces.filterMap _ ?_
  rintro ⟨b, n⟩ ⟨b', n'⟩ hlt a ha a' ha'
  simp only [Option.ite_none_right_eq_some, Option.some.injEq] at ha ha'
  rw [← ha.2, ← ha'.2]
  exact hlt

/-- Dropping a store takes it from all references that are bound to it, and answers them in their order. The store stays
the source of those that are not bound to it, which is all that taking it from each reference does more. -/
theorem dropStore_of_runs {log : Log} (h : Runs perform .empty log t) (s : StoreId) :
    (∀ r, (dropStore s t).2.view s r = none ∧ ((dropStore s t).2.source r = some s ↔ t.Stray s r)) ∧
    (∀ i ≠ s, ∀ r, (dropStore s t).2.view i r = t.view i r ∧
      ((dropStore s t).2.source r = some i ↔ t.source r = some i)) ∧
    (dropStore s t).2.entries.length = t.entries.length ∧
    ((dropStore s t).1.Pairwise fun a b => a.1.index < b.1.index) ∧
    (∀ r w, (r, w) ∈ (dropStore s t).1 ↔ (t.view s r).isSome ∧ w = decide (t.source r = some s)) ∧
    unbindAll s t = clearSource s (dropStore s t).2 ∧
    ((dropStore s t).2 = unbindAll s t ↔ ∀ r, ¬t.Stray s r) := by
  have hview := view_dropStore (ascending_of_runs h) s
  refine ⟨fun r => ⟨(hview s r).trans (if_pos rfl), source_dropStore_eq_iff s t r⟩,
    fun i hi r => ⟨(hview i r).trans (if_neg hi), source_dropStore_of_ne hi t r⟩, length_dropStore s t,
    pairwise_affected s t, fun r w => mem_affected_iff, unbindAll_eq_clearSource s t, dropStore_eq_unbindAll_iff s t⟩

/-- Three references, two of them bound to the store that is dropped; it is the source of the first and of the one that
is not bound to it. -/
theorem dropStore_of_runs_with_stray : ∃ log t, Runs perform .empty log t ∧
    (dropStore ⟨0⟩ t).1 = [(⟨0⟩, true), (⟨2⟩, false)] ∧
    (dropStore ⟨0⟩ t).2.source ⟨0⟩ = none ∧ (dropStore ⟨0⟩ t).2.source ⟨1⟩ = some ⟨0⟩ ∧
    (dropStore ⟨0⟩ t).2.view ⟨1⟩ ⟨2⟩ = some ⟨4, 0⟩ ∧ (dropStore ⟨0⟩ t).2 ≠ unbindAll ⟨0⟩ t := by
  let calls : List Call := [.create, .create, .create, .bind ⟨0⟩ ⟨0⟩ ⟨1, 0⟩, .setSource ⟨0⟩ (some ⟨0⟩),
    .setSource ⟨1⟩ (some ⟨0⟩), .bind ⟨2⟩ ⟨0⟩ ⟨2, 0⟩, .bind ⟨2⟩ ⟨1⟩ ⟨4, 0⟩, .setSource ⟨2⟩ (some ⟨1⟩)]
  have hrun : Runs perform .empty _ (Operation.after perform calls .empty) := runs_events perform calls .empty
  obtain ⟨hdropped, hothers, -, -, -, -, hagree⟩ := dropStore_of_runs hrun ⟨0⟩
  have hstray : Stray (Operation.after perform calls .empty) ⟨0⟩ ⟨1⟩ := by
    refine ⟨?_, ?_⟩ <;> rfl
  refine ⟨_, _, hrun, by decide +kernel, ?_, (hdropped ⟨1⟩).2.2 hstray, ?_, fun h => hagree.1 h ⟨1⟩ hstray⟩
  · decide +kernel
  · rw [(hothers ⟨1⟩ (by decide) ⟨2⟩).1]
    decide +kernel

/-- A store that was made the source of an unbound reference is its source still when it has been dropped. -/
theorem not_sourceless_of_dropStore : ¬∀ (log : Log) (t : Bindings), Runs perform .empty log t →
    ∀ s r, (dropStore s t).2.source r ≠ some s := by
  intro h
  have hsource := h _ _ (runs_events perform [.create, .setSource ⟨0⟩ (some ⟨0⟩)] .empty) ⟨0⟩ ⟨0⟩
  exact hsource (by decide +kernel)

end Bindings

/-- In a session every reference is bound to its source. -/
theorem Session.WellFormed.dropStore_eq_unbindAll {s : Session} (h : s.WellFormed) (i : StoreId) :
    (Bindings.dropStore i s.bindings).2 = Bindings.unbindAll i s.bindings := by
  refine (Bindings.dropStore_eq_unbindAll_iff i s.bindings).2 fun r hr => ?_
  obtain ⟨o, b, hp⟩ := h.source hr.1
  rw [place_unbound hr.2] at hp
  cases hp

end PdfStore
