import Mathlib.Data.List.Basic
import PdfStore.Proofs.OrderedMaps
import PdfStore.Proofs.Runs
import PdfStore.Session.Bindings

/-!
# Views and sources

The bindings of a session are used through two functions: the identity of a reference in a store
(`Bindings.view`) and the source of a reference (`Bindings.source`). Each operation changes them at one
reference, and dropping a store changes them at one store.
-/

namespace PdfStore.Bindings

variable {t u : Bindings} {r q : Reference} {i j : StoreId} {id : ObjectId} {b : Binding}

def source (t : Bindings) (r : Reference) : Option StoreId := t.entries[r.index]?.bind Binding.source

/-- Whether a reference has been made. -/
def Knows (t : Bindings) (r : Reference) : Prop := r.index < t.entries.length

def Ascending (t : Bindings) : Prop := ∀ b ∈ t.entries, b.identities.Ascending

theorem index_eq_iff : q.index = r.index ↔ q = r := by
  cases q
  cases r
  simp

theorem known_of_view (h : t.view i r = some id) : t.Knows r := by
  unfold view at h
  cases hb : t.entries[r.index]? with
  | none => simp [hb] at h
  | some b => exact (List.getElem?_eq_some_iff.1 hb).1

theorem get_known (h : t.Knows r) : ∃ b, t.entries[r.index]? = some b ∧ t.get r = .ok b := by
  have hb : t.entries[r.index]? = some t.entries[r.index] := List.getElem?_eq_getElem h
  exact ⟨_, hb, by rw [get, hb]⟩

theorem get_unknown (h : ¬ t.Knows r) : t.get r = .error (.unknownReference r) := by
  rw [get, List.getElem?_eq_none (Nat.le_of_not_lt h)]

theorem view_of_entry (h : t.entries[r.index]? = some b) (i : StoreId) : t.view i r = b.identity? i := by
  rw [view, h]
  rfl

theorem source_of_entry (h : t.entries[r.index]? = some b) : t.source r = b.source := by
  rw [source, h]
  rfl

/-! ## Changing one reference -/

theorem entries_modify (t : Bindings) (r q : Reference) (f : Binding → Binding) :
    (t.modify r f).entries[q.index]? = if q = r then t.entries[q.index]?.map f else t.entries[q.index]? := by
  rw [modify, List.getElem?_modify]
  by_cases hq : q = r
  · simp [hq]
  · have hne : r.index ≠ q.index := fun h => hq (index_eq_iff.1 h.symm)
    simp [hq, hne]

theorem change_known (h : t.Knows r) (f : Binding → Binding) :
    ∃ b, t.entries[r.index]? = some b ∧ change r f t = .ok b (t.modify r f) := by
  obtain ⟨b, hb, hg⟩ := get_known h
  refine ⟨b, hb, ?_⟩
  rw [change, Operation.bind_of_ok (Operation.get_apply t), hg]
  rfl

/-- What a change leaves, whether or not there is such a reference. -/
theorem next_change (r : Reference) (f : Binding → Binding) (t : Bindings) : (change r f).next t = t.modify r f := by
  by_cases hk : t.Knows r
  · obtain ⟨b, -, hok⟩ := change_known hk f
    exact Operation.next_ok hok
  · have he : change r f t = .error (.unknownReference r) t := by
      rw [change, Operation.bind_of_ok (Operation.get_apply t), get_unknown hk]
      rfl
    rw [Operation.next_error he, modify, List.modify_eq_self (Nat.le_of_not_lt hk)]

theorem bind_known (h : t.Knows r) (i : StoreId) (id : ObjectId) :
    bind r i id t = .ok () (t.modify r (·.bind i id)) := by
  obtain ⟨b, -, hok⟩ := change_known h (·.bind i id)
  exact Operation.bind_of_ok hok

theorem unbind_known (h : t.Knows r) (i : StoreId) :
    unbind r i t = .ok (t.view i r) (t.modify r (·.unbind i)) := by
  obtain ⟨b, hb, hok⟩ := change_known h (·.unbind i)
  rw [view_of_entry hb]
  exact Operation.bind_of_ok hok

theorem setSource_known (h : t.Knows r) (place : Option StoreId) :
    setSource r place t = .ok () (t.modify r fun b => { b with source := place }) := by
  obtain ⟨b, -, hok⟩ := change_known h fun b => { b with source := place }
  exact Operation.bind_of_ok hok

theorem length_modify (t : Bindings) (r : Reference) (f : Binding → Binding) :
    (t.modify r f).entries.length = t.entries.length := List.length_modify _ _ _

theorem ascending_modify {f : Binding → Binding} (h : t.Ascending)
    (hf : ∀ b, b.identities.Ascending → (f b).identities.Ascending) : (t.modify r f).Ascending := by
  intro b hb
  obtain ⟨n, hn⟩ := List.mem_iff_getElem?.1 hb
  have hn : (t.modify r f).entries[(⟨n⟩ : Reference).index]? = some b := hn
  rw [entries_modify] at hn
  split at hn
  · obtain ⟨b', hb', rfl⟩ := Option.map_eq_some_iff.1 hn
    exact hf b' (h b' (List.mem_of_getElem? hb'))
  · exact h b (List.mem_of_getElem? hn)

/-! ## Binding -/

theorem view_bind (h : t.Knows r) (i j : StoreId) (q : Reference) (id : ObjectId) :
    (t.modify r (·.bind i id)).view j q = if j = i ∧ q = r then some id else t.view j q := by
  obtain ⟨b, hb, -⟩ := get_known h
  rw [view, entries_modify]
  by_cases hq : q = r
  · subst hq
    rw [if_pos rfl, view_of_entry hb, hb]
    by_cases hj : j = i
    · rw [if_pos ⟨hj, rfl⟩, hj]
      exact OrderedMap.get?_insert_self _ _ _
    · rw [if_neg fun h => hj h.1]
      exact OrderedMap.get?_insert_of_ne _ hj _
  · rw [if_neg hq, if_neg fun h => hq h.2]
    rfl

theorem source_bind (t : Bindings) (r q : Reference) (i : StoreId) (id : ObjectId) :
    (t.modify r (·.bind i id)).source q = t.source q := by
  rw [source, entries_modify, source]
  split
  · cases t.entries[q.index]? <;> rfl
  · rfl

theorem ascending_bind (h : t.Ascending) : (t.modify r (·.bind i id)).Ascending :=
  ascending_modify h fun _ hb => OrderedMap.ascending_insert _ _ hb

/-! ## Taking a store away -/

theorem view_unbind (h : t.Ascending) (r q : Reference) (i j : StoreId) :
    (t.modify r (·.unbind i)).view j q = if j = i ∧ q = r then none else t.view j q := by
  rw [view, entries_modify]
  by_cases hq : q = r
  · subst hq
    rw [if_pos rfl]
    cases hb : t.entries[q.index]? with
    | none => simp [view, hb]
    | some b =>
        rw [view_of_entry hb]
        by_cases hj : j = i
        · rw [if_pos ⟨hj, rfl⟩, hj]
          exact OrderedMap.get?_erase_self (h b (List.mem_of_getElem? hb)) i
        · rw [if_neg fun h => hj h.1]
          exact OrderedMap.get?_erase_of_ne _ hj
  · rw [if_neg hq, if_neg fun h => hq h.2]
    rfl

theorem source_unbind (t : Bindings) (r q : Reference) (i : StoreId) :
    (t.modify r (·.unbind i)).source q =
      if q = r ∧ t.source q = some i then none else t.source q := by
  rw [source, entries_modify, source]
  by_cases hq : q = r
  · rw [if_pos hq]
    cases hb : t.entries[q.index]? with
    | none => simp
    | some b => simp [Binding.unbind, hq]
  · rw [if_neg hq, if_neg fun h => hq h.1]

theorem ascending_unbind (h : t.Ascending) : (t.modify r (·.unbind i)).Ascending :=
  ascending_modify h fun _ hb => OrderedMap.ascending_erase _ hb

/-! ## Moving the source -/

theorem view_setSource (t : Bindings) (r q : Reference) (place : Option StoreId) (j : StoreId) :
    (t.modify r fun b => { b with source := place }).view j q = t.view j q := by
  rw [view, entries_modify, view]
  split
  · cases t.entries[q.index]? <;> rfl
  · rfl

theorem source_setSource (h : t.Knows r) (place : Option StoreId) (q : Reference) :
    (t.modify r fun b => { b with source := place }).source q = if q = r then place else t.source q := by
  obtain ⟨b, hb, -⟩ := get_known h
  rw [source, entries_modify]
  by_cases hq : q = r
  · subst hq
    rw [if_pos rfl, if_pos rfl, hb]
    rfl
  · rw [if_neg hq, if_neg hq]
    rfl

theorem ascending_setSource (h : t.Ascending) (place : Option StoreId) :
    (t.modify r fun b => { b with source := place }).Ascending :=
  ascending_modify h fun _ hb => hb

/-! ## New references -/

theorem create_ok (h : t.entries.length < maxHandles) :
    create t = .ok ⟨t.entries.length⟩ ⟨t.entries ++ [.empty]⟩ := by
  rw [create, Operation.bind_of_ok (Operation.get_apply t)]
  simp only [if_neg (Nat.not_le_of_lt h)]
  rfl

theorem create_full (h : maxHandles ≤ t.entries.length) : create t = .error (.arenaFull "reference") t := by
  rw [create, Operation.bind_of_ok (Operation.get_apply t)]
  simp only [if_pos h]
  rfl

theorem entries_create (t : Bindings) (q : Reference) :
    (t.entries ++ [Binding.empty])[q.index]? = t.entries[q.index]? ∨
      t.entries[q.index]? = none ∧ (t.entries ++ [Binding.empty])[q.index]? = some .empty := by
  rw [List.getElem?_append]
  split
  · exact Or.inl rfl
  · rename_i h
    rw [List.getElem?_eq_none (Nat.le_of_not_lt h)]
    cases q.index - t.entries.length with
    | zero => exact Or.inr ⟨rfl, rfl⟩
    | succ n => exact Or.inl rfl

theorem view_create (t : Bindings) (j : StoreId) (q : Reference) :
    view ⟨t.entries ++ [.empty]⟩ j q = t.view j q := by
  rw [view, view]
  rcases entries_create t q with h | ⟨h, h'⟩
  · rw [h]
  · rw [h, h']
    rfl

theorem source_create (t : Bindings) (q : Reference) : source ⟨t.entries ++ [.empty]⟩ q = t.source q := by
  rw [source, source]
  rcases entries_create t q with h | ⟨h, h'⟩
  · rw [h]
  · rw [h, h']
    rfl

theorem ascending_create (h : t.Ascending) : Ascending ⟨t.entries ++ [.empty]⟩ := by
  intro b hb
  rcases List.mem_append.1 hb with hb | hb
  · exact h b hb
  · rw [List.mem_singleton.1 hb]
    exact OrderedMap.ascending_empty

/-! ## Dropping a store -/

/-- What dropping a store does to each binding. -/
def dropped (i : StoreId) (b : Binding) : Binding := if (b.identity? i).isSome then b.unbind i else b

theorem dropStore_entries (i : StoreId) (t : Bindings) : (dropStore i t).2 = ⟨t.entries.map (dropped i)⟩ := rfl

theorem view_dropStore (h : t.Ascending) (i j : StoreId) (q : Reference) :
    (dropStore i t).2.view j q = if j = i then none else t.view j q := by
  rw [dropStore_entries, view, List.getElem?_map]
  cases hb : t.entries[q.index]? with
  | none => simp [view, hb]
  | some b =>
      rw [view_of_entry hb, Option.map_some, Option.bind_some, dropped]
      by_cases hj : j = i
      · rw [if_pos hj, hj]
        split
        · exact OrderedMap.get?_erase_self (h b (List.mem_of_getElem? hb)) i
        · rename_i hn
          exact Option.not_isSome_iff_eq_none.1 hn
      · rw [if_neg hj]
        split
        · exact OrderedMap.get?_erase_of_ne _ hj
        · rfl

theorem source_dropStore (i : StoreId) (t : Bindings) (q : Reference) :
    (dropStore i t).2.source q =
      if t.source q = some i ∧ (t.view i q).isSome then none else t.source q := by
  rw [dropStore_entries, source, List.getElem?_map]
  cases hb : t.entries[q.index]? with
  | none => simp [source, hb]
  | some b =>
      rw [source_of_entry hb, view_of_entry hb, Option.map_some, Option.bind_some, dropped]
      by_cases hi : (b.identity? i).isSome
      · rw [if_pos hi]
        by_cases hs : b.source = some i
        · rw [if_pos ⟨hs, hi⟩]
          exact if_pos hs
        · rw [if_neg fun h => hs h.1]
          exact if_neg hs
      · rw [if_neg hi, if_neg fun h => hi h.2]

theorem ascending_dropStore (h : t.Ascending) : (dropStore i t).2.Ascending := by
  intro b hb
  obtain ⟨b', hb', rfl⟩ := List.mem_map.1 hb
  split
  · exact OrderedMap.ascending_erase _ (h b' hb')
  · exact h b' hb'

theorem length_dropStore (i : StoreId) (t : Bindings) :
    (dropStore i t).2.entries.length = t.entries.length := List.length_map _

theorem mem_affected_iff {w : Bool} :
    (r, w) ∈ (dropStore i t).1 ↔ (t.view i r).isSome ∧ w = decide (t.source r = some i) := by
  constructor
  · intro h
    obtain ⟨⟨b, n⟩, hb, heq⟩ := List.mem_filterMap.1 h
    have hb := List.mk_mem_zipIdx_iff_getElem?.1 hb
    simp only at heq
    split at heq
    · rename_i hbound
      simp only [Option.some.injEq, Prod.mk.injEq] at heq
      obtain ⟨rfl, rfl⟩ := heq
      have hb : t.entries[(⟨n⟩ : Reference).index]? = some b := hb
      exact ⟨by rwa [view_of_entry hb], by rw [source_of_entry hb]⟩
    · cases heq
  · rintro ⟨hv, rfl⟩
    obtain ⟨id, hid⟩ := Option.isSome_iff_exists.1 hv
    obtain ⟨b, hb, -⟩ := get_known (known_of_view hid)
    refine List.mem_filterMap.2 ⟨(b, r.index), List.mk_mem_zipIdx_iff_getElem?.2 hb, ?_⟩
    rw [view_of_entry hb] at hv
    simp [hv, source_of_entry hb]

theorem mem_affected {w : Bool} (h : (r, w) ∈ (dropStore i t).1) :
    t.Knows r ∧ w = decide (t.source r = some i) := by
  obtain ⟨hv, hw⟩ := mem_affected_iff.1 h
  obtain ⟨id, hid⟩ := Option.isSome_iff_exists.1 hv
  exact ⟨known_of_view hid, hw⟩

theorem affected_of_source (h : t.source r = some i) (hv : (t.view i r).isSome) :
    (r, true) ∈ (dropStore i t).1 :=
  mem_affected_iff.2 ⟨hv, (decide_eq_true h).symm⟩

end PdfStore.Bindings
