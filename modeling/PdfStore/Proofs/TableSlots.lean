import Mathlib.Data.List.Basic
import PdfStore.Proofs.SparseContents
import PdfStore.Table.Basic

/-!
# The slots of a table

Each operation of the table changes a few slots of its list. An operation on an identity that is not in
use fails and changes none.
-/

namespace PdfStore.Table

variable {t u : Table} {id : ObjectId} {n : Nat} {s : Slot}

/-! ## Single slots -/

theorem slot?_eq_getElem? (t : Table) (n : Nat) : t.slot? n = t.toList[n]? :=
  (SparseArray.getElem?_toList t.slots n).symm

theorem length_toList (t : Table) : t.toList.length = t.size := SparseArray.length_toList t.slots

theorem slot?_isSome (h : n < t.size) : ∃ s, t.slot? n = some s := by
  rw [slot?_eq_getElem?]
  exact ⟨_, List.getElem?_eq_getElem (by rwa [length_toList])⟩

theorem lt_size_of_slot? (h : t.slot? n = some s) : n < t.size := by
  rw [slot?_eq_getElem?] at h
  rw [← length_toList]
  exact (List.getElem?_eq_some_iff.1 h).1

/-- The slot of a number, if it is in use. -/
def used? (t : Table) (n : Nat) : Option Slot := (t.slot? n).filter Slot.inUse

theorem used?_eq_some : t.used? n = some s ↔ t.slot? n = some s ∧ s.inUse = true :=
  Option.filter_eq_some_iff

/-- A table with other slots and the same largest generation. -/
structure HasSlots (t u : Table) (slots : List Slot) : Prop where
  clean : u.slots.Clean
  limit : u.maxGeneration = t.maxGeneration
  toList_eq : u.toList = slots

theorem HasSlots.size_eq {slots : List Slot} (h : HasSlots t u slots) : u.size = slots.length := by
  rw [← length_toList, h.toList_eq]

theorem HasSlots.slot?_eq {slots : List Slot} (h : HasSlots t u slots) (m : Nat) : u.slot? m = slots[m]? := by
  rw [slot?_eq_getElem?, h.toList_eq]

/-- A list of slots with one changed. -/
theorem HasSlots.slot?_set {slots : List Slot} (h : HasSlots t u (slots.set n s)) (hn : n < slots.length)
    (m : Nat) : u.slot? m = if m = n then some s else slots[m]? := by
  rw [h.slot?_eq, List.getElem?_set]
  by_cases hm : m = n
  · rw [if_pos hm.symm, if_pos hm, if_pos (hm ▸ hn)]
  · rw [if_neg (Ne.symm hm), if_neg hm]

theorem onSlots_ok {α : Type} {x : Operation SparseError (SparseArray Slot) α} {r : α} {a : SparseArray Slot}
    (h : x t.slots = .ok r a) : onSlots x t = .ok r { t with slots := a } :=
  Operation.onPart_of_ok h

theorem update_ok (h : t.slots.Clean) (hs : t.slot? n = some s) (f : Slot → Slot) :
    ∃ u, update n f t = .ok s u ∧ HasSlots t u (t.toList.set n (f s)) := by
  obtain ⟨a, hclean, hok, hlist⟩ := SparseArray.update_ok h (lt_size_of_slot? hs) f
  have hcell : t.slots.cell n = s := by
    have hn : n < t.slots.size := lt_size_of_slot? hs
    simp only [slot?, SparseArray.get?, if_pos hn] at hs
    exact Option.some.inj hs
  rw [hcell] at hok
  refine ⟨_, onSlots_ok hok, hclean, rfl, ?_⟩
  rw [slot?_eq_getElem?] at hs
  have hlist : a.toList = t.toList.modify n f := hlist
  rwa [List.modify_eq_set_getElem?, hs] at hlist

/-! ## Identities in use -/

theorem validate_ok : t.validate id = .ok s ↔
    t.slot? id.number.toNat = some s ∧ id.number ≠ 0 ∧ s.inUse = true ∧ s.generation = id.generation := by
  simp only [validate]
  cases t.slot? id.number.toNat with
  | none => simp
  | some s' =>
      simp only [Option.some.injEq, ne_eq, ite_not]
      split
      · rename_i h
        simp only [reduceCtorEq, false_iff]
        rintro ⟨rfl, h₀, hu, -⟩
        simp [h₀, hu] at h
      · rename_i h
        simp only [Bool.or_eq_true, decide_eq_true_eq, Bool.not_eq_true', not_or, Bool.not_eq_false] at h
        split
        · rename_i hg
          simp only [Except.ok.injEq]
          exact ⟨fun e => ⟨e, h.1, e ▸ h.2, e ▸ hg⟩, fun e => e.1⟩
        · rename_i hg
          simp only [reduceCtorEq, false_iff]
          rintro ⟨rfl, -, -, he⟩
          exact hg he

theorem checked_ok (h : t.validate id = .ok s) : checked id t = .ok s t := by
  simp [checked, Operation.bind_apply, h]

theorem checked_error {e : TableError} (h : t.validate id = .error e) : checked id t = .error e t := by
  simp [checked, Operation.bind_apply, h]

theorem setOffset_ok (hc : t.slots.Clean) (h : t.validate id = .ok s) (o : Nat) :
    ∃ u, setOffset id o t = .ok () u ∧
      HasSlots t u (t.toList.set id.number.toNat { s with offset := o, dirty := true }) := by
  obtain ⟨u, hu, hslots⟩ := update_ok hc (validate_ok.1 h).1 fun s => { s with offset := o, dirty := true }
  refine ⟨u, ?_, hslots⟩
  rw [setOffset, Operation.bind_of_ok (checked_ok h), Operation.bind_of_ok hu]
  rfl

theorem setOffset_error {e : TableError} (h : t.validate id = .error e) (o : Nat) :
    setOffset id o t = .error e t := by
  rw [setOffset, Operation.bind_of_error (checked_error h)]

/-- The generation of a slot after the release of an identity. -/
def nextGeneration (t : Table) (g : UInt16) : UInt16 :=
  if g < t.maxGeneration then g + 1 else t.maxGeneration

theorem release_ok (hc : t.slots.Clean) (h : t.validate id = .ok s) {head : Slot}
    (hh : t.slot? 0 = some head) :
    ∃ u, release id t = .ok (if t.nextGeneration id.generation < t.maxGeneration
        then .recycled (t.nextGeneration id.generation) else .retired) u ∧
      HasSlots t u ((t.toList.set 0 { head with offset := id.number.toNat, dirty := true }).set id.number.toNat
        ⟨head.offset, t.nextGeneration id.generation, false, true⟩) := by
  obtain ⟨t₁, h₁, hs₁⟩ := update_ok hc hh fun s => { s with offset := id.number.toNat, dirty := true }
  obtain ⟨s₁, hn⟩ : ∃ s₁, t₁.slot? id.number.toNat = some s₁ := by
    apply slot?_isSome
    rw [hs₁.size_eq, List.length_set, length_toList]
    exact lt_size_of_slot? (validate_ok.1 h).1
  obtain ⟨t₂, h₂, hs₂⟩ := update_ok hs₁.clean hn
    fun _ => ⟨head.offset, t.nextGeneration id.generation, false, true⟩
  refine ⟨t₂, ?_, hs₂.clean, hs₂.limit.trans hs₁.limit, by rw [hs₂.toList_eq, hs₁.toList_eq]⟩
  rw [release, Operation.bind_of_ok (checked_ok h), Operation.bind_of_ok (Operation.get_apply t),
    Operation.bind_of_ok h₁]
  exact Operation.bind_of_ok h₂

theorem release_error {e : TableError} (h : t.validate id = .error e) : release id t = .error e t := by
  rw [release, Operation.bind_of_error (checked_error h)]

/-! ## Giving out identities -/

theorem reusable?_some (h : t.reusable? = some n) :
    0 < n ∧ ∃ s, t.slot? n = some s ∧ s.inUse = false ∧ s.generation < t.maxGeneration := by
  have hmem := List.mem_of_find?_eq_some h
  have hp := List.find?_some h
  refine ⟨by have := List.mem_range'_1.1 hmem; omega, ?_⟩
  cases hs : t.slot? n with
  | none => simp [hs] at hp
  | some s =>
      simp only [hs, Bool.and_eq_true, Bool.not_eq_true', decide_eq_true_eq] at hp
      exact ⟨s, rfl, hp⟩

theorem unlink_some {p : Nat} {sp : Slot} (hc : t.slots.Clean) (h : t.predecessor? n t.size 0 = some p)
    (hs : t.slot? p = some sp) :
    ∃ u, unlink n t = .ok () u ∧
      HasSlots t u (t.toList.set p { sp with offset := t.offset n, dirty := true }) := by
  obtain ⟨u, hu, hslots⟩ := update_ok hc hs fun s => { s with offset := t.offset n, dirty := true }
  refine ⟨u, ?_, hslots⟩
  rw [unlink, Operation.bind_of_ok (Operation.get_apply t)]
  simp only [h]
  rw [Operation.bind_of_ok hu]
  rfl

/-- A slot that comes back leaves the chain before it is given out. -/
theorem reserve_reused {p : Nat} {sp : Slot} (hc : t.slots.Clean) (hr : t.reusable? = some n)
    (hs : t.slot? n = some s) (hp : t.predecessor? n t.size 0 = some p) (hsp : t.slot? p = some sp)
    (hpn : p ≠ n) :
    ∃ u, reserve t = .ok ⟨UInt32.ofNat n, s.generation⟩ u ∧
      HasSlots t u ((t.toList.set p { sp with offset := t.offset n, dirty := true }).set n
        (.reserved s.generation)) := by
  obtain ⟨t₁, h₁, hs₁⟩ := unlink_some hc hp hsp
  have hn : t₁.slot? n = some s := by
    rw [hs₁.slot?_eq, List.getElem?_set_ne hpn, ← slot?_eq_getElem?, hs]
  obtain ⟨t₂, h₂, hs₂⟩ := update_ok hs₁.clean hn fun s => .reserved s.generation
  refine ⟨t₂, ?_, hs₂.clean, hs₂.limit.trans hs₁.limit, by rw [hs₂.toList_eq, hs₁.toList_eq]⟩
  rw [reserve, Operation.bind_of_ok (Operation.get_apply t)]
  simp only [hr]
  rw [Operation.bind_of_ok h₁, Operation.bind_of_ok h₂]
  rfl

/-- If no slot can come back, there is a new one at the end. -/
theorem reserve_new (hc : t.slots.Clean) (hr : t.reusable? = none) (hsize : t.size ≤ 4294967295) :
    ∃ u, reserve t = .ok ⟨UInt32.ofNat t.size, 0⟩ u ∧ HasSlots t u (t.toList ++ [.reserved 0]) := by
  obtain ⟨a, ha, hok, hlist⟩ := SparseArray.resize_ok (n := t.size + 1) (by omega) hc
  have hlist : a.toList = t.toList ++ [default] := by
    have hlen : t.slots.toList.length ≤ t.size + 1 :=
      le_of_eq_of_le (SparseArray.length_toList t.slots) (Nat.le_succ t.size)
    have hfill : t.size + 1 - t.slots.size = 1 := Nat.add_sub_cancel_left t.size 1
    rw [hlist, hfill, List.take_of_length_le hlen]
    rfl
  have hn : ({ t with slots := a } : Table).slot? t.size = some default := by
    rw [slot?_eq_getElem?]
    change a.toList[t.size]? = _
    rw [hlist, ← length_toList, List.getElem?_concat_length]
  obtain ⟨u, hu, hs⟩ := update_ok (t := { t with slots := a }) ha hn fun _ => .reserved 0
  refine ⟨u, ?_, hs.clean, hs.limit, ?_⟩
  · rw [reserve, Operation.bind_of_ok (Operation.get_apply t)]
    simp only [hr]
    rw [if_neg (by omega)]
    rw [Operation.bind_of_ok (onSlots_ok hok), Operation.bind_of_ok hu]
    rfl
  · rw [hs.toList_eq]
    change a.toList.set _ _ = _
    rw [hlist, ← length_toList]
    simp

theorem reserve_full (hr : t.reusable? = none) (hsize : 4294967295 < t.size) :
    reserve t = .error .full t := by
  rw [reserve, Operation.bind_of_ok (Operation.get_apply t)]
  simp only [hr, if_pos hsize]
  rfl

theorem ofCluster_ok {cluster : Nat} (h : 2 ≤ cluster) (limit : UInt16) :
    ∃ t, ofCluster cluster limit = .ok t ∧ t.slots.Clean ∧ t.maxGeneration = limit ∧
      t.toList = [⟨0, limit, false, true⟩] := by
  obtain ⟨a, ha, hok, hnil⟩ := SparseArray.ofCluster_ok (α := Slot) h
  obtain ⟨b, hb, hres, hlist⟩ := SparseArray.resize_ok (n := 1) (by decide) ha
  have hsize : a.size = 0 := by rw [← SparseArray.length_toList, hnil]; rfl
  rw [hnil, hsize] at hlist
  have h₀ : ({ slots := b, maxGeneration := limit } : Table).slot? 0 = some default := by
    rw [slot?_eq_getElem?]
    change b.toList[0]? = _
    rw [hlist]
    rfl
  obtain ⟨t, ht, hs⟩ := update_ok (t := { slots := b, maxGeneration := limit }) hb h₀
    fun _ => ⟨0, limit, false, true⟩
  refine ⟨t, ?_, hs.clean, hs.limit, ?_⟩
  · have hanswer : Operation.answer? (do
        onSlots (SparseArray.resize 1)
        let _ ← update 0 fun _ => ⟨0, limit, false, true⟩) ⟨a, limit⟩ = .ok ((), t) := by
      rw [Operation.answer?, Operation.bind_of_ok (onSlots_ok hres), Operation.bind_of_ok ht]
      rfl
    simp only [ofCluster, hok, Except.mapError, bind, Except.bind] at hanswer ⊢
    rw [hanswer]
    rfl
  · rw [hs.toList_eq]
    change b.toList.set _ _ = _
    rw [hlist]
    rfl

/-! ## Calls -/

inductive Call
  | reserve
  | release (id : ObjectId)
  | setOffset (id : ObjectId) (offset : Nat)

inductive Answer
  | identity (id : ObjectId)
  | released (outcome : Release)
  | done

/-- A call on a table. -/
def perform : Call → Operation TableError Table Answer
  | .reserve => return .identity (← reserve)
  | .release id => return .released (← release id)
  | .setOffset id offset => do
    setOffset id offset
    return .done

theorem next_perform_reserve (t : Table) : (perform .reserve).next t = reserve.next t :=
  Operation.next_bind_pure _ _ _

theorem next_perform_release (id : ObjectId) (t : Table) :
    (perform (.release id)).next t = (release id).next t :=
  Operation.next_bind_pure _ _ _

theorem next_perform_setOffset (id : ObjectId) (o : Nat) (t : Table) :
    (perform (.setOffset id o)).next t = (setOffset id o).next t :=
  Operation.next_bind_pure _ _ _

theorem outcome_perform_reserve (t : Table) :
    (perform .reserve).outcome t = (reserve.outcome t).map .identity :=
  Operation.outcome_bind_pure _ _ _

theorem outcome_perform_release (id : ObjectId) (t : Table) :
    (perform (.release id)).outcome t = ((release id).outcome t).map .released :=
  Operation.outcome_bind_pure _ _ _

abbrev Log := List (Event Call TableError Table Answer)

end PdfStore.Table
