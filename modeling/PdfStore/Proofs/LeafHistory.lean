import Mathlib.Data.Finset.Card
import Mathlib.Data.List.Forall2
import PdfStore.Proofs.SparseLeaves

/-!
# Leaves and the requests behind them

Which leaves an array stores is told by the requests that it has granted (`histories`): those of the elements it
was asked for, less what a later resize has cut off (`Stays`). Reading stores no leaf, and levels that a refused
resize leaves behind hold none.
-/

namespace PdfStore.SparseArray

variable {α ε σ : Type} {c b n : Nat} {history : List (Request α)} {a : SparseArray α}

/-! ## What the requests tell -/

/-- An element of the block with a number has been asked for, and no later resize has cut the block off. -/
def Stays (c b : Nat) (history : List (Request α)) : Prop :=
  ∃ newer i f older, history = newer ++ .update i f :: older ∧ i / c = b ∧ ∀ n, .resize n ∈ newer → b * c < n

theorem not_stays_nil : ¬Stays c b ([] : List (Request α)) := by
  rintro ⟨newer, i, f, older, h, -⟩
  exact List.cons_ne_nil _ _ (List.append_eq_nil_iff.1 h.symm).2

theorem stays_cons (r : Request α) :
    Stays c b (r :: history) ↔
      (∃ i f, r = .update i f ∧ i / c = b) ∨ Stays c b history ∧ ∀ n, r = .resize n → b * c < n := by
  constructor
  · rintro ⟨newer, i, f, older, h, hi, hnewer⟩
    cases newer with
    | nil =>
        obtain ⟨rfl, -⟩ := List.cons.inj h
        exact Or.inl ⟨i, f, rfl, hi⟩
    | cons r' newer =>
        obtain ⟨rfl, rfl⟩ := List.cons.inj h
        exact Or.inr ⟨⟨newer, i, f, older, rfl, hi, fun n hn => hnewer n (List.mem_cons_of_mem _ hn)⟩,
          fun n hn => hnewer n (hn ▸ List.mem_cons_self)⟩
  · rintro (⟨i, f, rfl, hi⟩ | ⟨⟨newer, i, f, older, rfl, hi, hnewer⟩, hr⟩)
    · exact ⟨[], i, f, history, rfl, hi, fun n hn => by cases hn⟩
    · refine ⟨r :: newer, i, f, older, rfl, hi, fun n hn => ?_⟩
      rcases List.mem_cons.1 hn with hn | hn
      · exact hr n hn.symm
      · exact hnewer n hn

theorem stays_update_cons (i : Nat) (f : α → α) :
    Stays c b (.update i f :: history) ↔ i / c = b ∨ Stays c b history := by
  rw [stays_cons]
  simp

theorem stays_resize_cons : Stays c b (.resize n :: history) ↔ Stays c b history ∧ b * c < n := by
  rw [stays_cons]
  simp

/-- The requests that each array, or the one it is a copy of, has granted, the latest one first. -/
def histories : List (Event (Call α) ε σ (Answer α)) → List (List (Request α))
  | [] => [[]]
  | e :: log =>
    match e.call with
    | .on k r => if e.outcome.isOk then (histories log).modify k (r :: ·) else histories log
    | .copy k => histories log ++ (histories log)[k]?.toList

/-! ## What the leaves are -/

/-- The leaves that an array has room for are stored as the requests tell, and they tell of no others. -/
structure Tracks (c : Nat) (history : List (Request α)) (a : SparseArray α) : Prop where
  cluster_eq : a.cluster = c
  size_le : a.size ≤ a.capacity
  fitting : a.Fitting
  holds_iff : ∀ b, b < a.places → (a.holds b = true ↔ Stays c b history)
  inside : ∀ b, Stays c b history → b * c < a.size

namespace Tracks

theorem lt_places (h : Tracks c history a) (hb : Stays c b history) : b < a.places := by
  rw [lt_places_iff, h.cluster_eq]
  exact Nat.lt_of_lt_of_le (h.inside b hb) h.size_le

theorem stays_iff (h : Tracks c history a) (b : Nat) : b < a.places ∧ a.holds b = true ↔ Stays c b history :=
  ⟨fun hb => (h.holds_iff b hb.1).1 hb.2, fun hb => ⟨h.lt_places hb, (h.holds_iff b (h.lt_places hb)).2 hb⟩⟩

/-- The blocks that stay are those of the stored leaves. -/
theorem leaves_eq_card (h : Tracks c history a) :
    ∃ blocks : Finset Nat, (∀ b, b ∈ blocks ↔ Stays c b history) ∧ a.leaves = blocks.card := by
  refine ⟨((List.range a.places).filter a.holds).toFinset, fun b => ?_, ?_⟩
  · rw [List.mem_toFinset, List.mem_filter, List.mem_range]
    exact h.stays_iff b
  · rw [List.toFinset_card_of_nodup (List.nodup_range.filter _), h.fitting.leaves_eq, List.countP_eq_length_filter]

theorem raise (h : Tracks c history a) : Tracks c history a.raise where
  cluster_eq := h.cluster_eq
  size_le := Nat.le_trans h.size_le (Nat.le_of_lt (capacity_lt_capacity_raise a))
  fitting := h.fitting.raise
  holds_iff b _ := by
    rw [holds_raise, Bool.and_eq_true, decide_eq_true_eq]
    exact h.stays_iff b
  inside := h.inside

theorem resize_error (h : Tracks c history a) {e : SparseError} {b : SparseArray α} (herr : resize n a = .error e b) :
    Tracks c history b :=
  Operation.next_error (grow_of_resize_error herr) ▸ next_grow (P := Tracks c history) raise n h

theorem resize_ok (h : Tracks c history a) {r : SparseArray α} (hok : resize n a = .ok () r) :
    Tracks c (.resize n :: history) r := by
  obtain ⟨g, hgrow, -⟩ := height_of_resize hok
  have hg : Tracks c history g := Operation.next_ok hgrow ▸ next_grow (P := Tracks c history) raise n h
  have hroom : n ≤ (g.lower n).capacity :=
    (lowered_spec g.cluster_pos (n := n) g.height g.root).2.1 (Stored.le_capacity_of_grow hgrow)
  have hlower (b : Nat) (hb : b < (g.lower n).places) : (g.lower n).holds b = true ↔ Stays c b history := by
    rw [holds_lower hb]
    exact hg.holds_iff b (Nat.lt_of_lt_of_le hb (places_lower_le n g))
  rw [resize_eq_of_grow hgrow] at hok
  injection hok with _ hr
  subst hr
  by_cases hn : n < g.size
  · rw [if_pos hn]
    refine ⟨hg.cluster_eq, hroom, (hg.fitting.lower n).cut n, fun b hb => ?_, fun b hb => (stays_resize_cons.1 hb).2⟩
    have hcut : ((g.lower n).cut n).holds b = (decide (b * c < n) && (g.lower n).holds b) := hg.cluster_eq ▸ holds_cut hb
    refine (Bool.eq_iff_iff.1 hcut).trans ?_
    rw [Bool.and_eq_true, decide_eq_true_eq, hlower b hb, stays_resize_cons, and_comm]
  · rw [if_neg hn]
    -- Nothing is cut off, since all that stays begins before the end.
    have hinside (b : Nat) (hb : Stays c b history) : b * c < n :=
      Nat.lt_of_lt_of_le (hg.inside b hb) (Nat.le_of_not_lt hn)
    refine ⟨hg.cluster_eq, hroom, hg.fitting.lower n, fun b hb => ?_, fun b hb => (stays_resize_cons.1 hb).2⟩
    exact (hlower b hb).trans (stays_resize_cons.trans (and_iff_left_of_imp (hinside b))).symm

theorem changed [Inhabited α] (h : Tracks c history a) {i : Nat} (hi : i < a.size) (f : α → α) :
    Tracks c (.update i f :: history) (a.changed i f) where
  cluster_eq := h.cluster_eq
  size_le := h.size_le
  fitting := h.fitting.changed f (Nat.lt_of_lt_of_le hi h.size_le)
  holds_iff b hb := by
    rw [holds_changed f (Nat.lt_of_lt_of_le hi h.size_le) hb, Bool.or_eq_true, decide_eq_true_eq, h.holds_iff b hb,
      h.cluster_eq, stays_update_cons, eq_comm]
  inside b hb := by
    rcases (stays_update_cons i f).1 hb with rfl | hb
    · exact Nat.lt_of_le_of_lt (Nat.div_mul_le_self i c) hi
    · exact h.inside b hb

/-- A request that neither changes an element nor resizes says nothing about leaves. -/
theorem other (h : Tracks c history a) {r : Request α} (hupdate : ∀ i f, r ≠ .update i f) (hresize : ∀ n, r ≠ .resize n) :
    Tracks c (r :: history) a := by
  have hstays (b : Nat) : Stays c b (r :: history) ↔ Stays c b history := by
    simp [stays_cons, hupdate, hresize]
  exact ⟨h.cluster_eq, h.size_le, h.fitting, fun b hb => (h.holds_iff b hb).trans (hstays b).symm,
    fun b hb => h.inside b ((hstays b).1 hb)⟩

/-- The step of a run: a request that is granted counts from now on, one that is refused does not. -/
theorem serve [Inhabited α] (h : Tracks c history a) (r : Request α) :
    Tracks c (if ((sparseArrays.serve r).outcome a).isOk then r :: history else history)
      ((sparseArrays.serve r).next a) := by
  cases r with
  | resize n =>
      have hnext : (sparseArrays.serve (.resize n)).next a = (resize n).next a := Operation.next_bind_pure ..
      have houtcome : (sparseArrays.serve (.resize n)).outcome a = ((resize n).outcome a).map fun _ => .done :=
        Operation.outcome_bind_pure ..
      rw [hnext, houtcome]
      cases hr : resize n a with
      | ok u b =>
          rw [Operation.next_ok hr, Operation.outcome_ok hr]
          exact h.resize_ok hr
      | error e b =>
          rw [Operation.next_error hr, Operation.outcome_error hr]
          exact h.resize_error hr
  | update i f =>
      have hnext : (sparseArrays.serve (.update i f)).next a = (update i f).next a := Operation.next_bind_pure ..
      have houtcome : (sparseArrays.serve (.update i f)).outcome a = ((update i f).outcome a).map .element :=
        Operation.outcome_bind_pure ..
      rw [hnext, houtcome]
      by_cases hi : i < a.size
      · have hr : update i f a = .ok (a.cell i) (a.changed i f) := if_pos hi
        rw [Operation.next_ok hr, Operation.outcome_ok hr]
        exact h.changed hi f
      · have hr : update i f a = .error (.indexOutOfRange i a.size) a := if_neg hi
        rw [Operation.next_error hr, Operation.outcome_error hr]
        exact h
  | get i => exact h.other (fun _ _ => nofun) fun _ => nofun
  | elements => exact h.other (fun _ _ => nofun) fun _ => nofun
  | length => exact h.other (fun _ _ => nofun) fun _ => nofun

end Tracks

/-! ## Runs -/

section Lists

variable {β γ : Type} {R : β → γ → Prop} {l : List β} {m : List γ}

theorem forall₂_getElem? (h : List.Forall₂ R l m) (k : Nat) :
    l[k]? = none ∧ m[k]? = none ∨ ∃ x y, l[k]? = some x ∧ m[k]? = some y ∧ R x y := by
  induction h generalizing k with
  | nil => exact Or.inl ⟨rfl, rfl⟩
  | @cons x y l m hxy _ ih =>
      cases k with
      | zero => exact Or.inr ⟨x, y, rfl, rfl, hxy⟩
      | succ k => exact ih k

theorem forall₂_set_modify (h : List.Forall₂ R l m) {k : Nat} {x : β} {f : γ → γ} (hk : ∀ y, m[k]? = some y → R x (f y)) :
    List.Forall₂ R (l.set k x) (m.modify k f) := by
  induction h generalizing k with
  | nil =>
      rw [List.set_nil, List.modify_nil]
      exact .nil
  | @cons _ y l m hxy hlm ih =>
      cases k with
      | zero => exact .cons (hk y rfl) hlm
      | succ k => exact .cons hxy (ih hk)

end Lists

theorem Arrays.outcome_on {A : Arrays ε σ α} {states : List σ} {k : Nat} {r : Request α} {s : σ}
    (hk : states[k]? = some s) : (A.perform (.on k r)).outcome states = (A.serve r).outcome s := by
  simp only [Operation.outcome, perform, hk]
  cases A.serve r s <;> rfl

theorem histories_on {e : Event (Call α) ε σ (Answer α)} {k : Nat} {r : Request α} (h : e.call = .on k r)
    (log : List (Event (Call α) ε σ (Answer α))) :
    histories (e :: log) = (histories log).modify k fun history => if e.outcome.isOk then r :: history else history := by
  rw [histories, h]
  cases hok : e.outcome.isOk with
  | true => rfl
  | false => exact (List.modify_id k _).symm

theorem tracks_of_run [Inhabited α] {first : SparseArray α}
    {log : List (Event (Call α) SparseError (List (SparseArray α)) (Answer α))} {arrays : List (SparseArray α)}
    (hfirst : Tracks c [] first) (h : Runs sparseArrays.perform [first] log arrays) :
    List.Forall₂ (fun a history => Tracks c history a) arrays (histories log) := by
  induction h with
  | none => exact .cons hfirst .nil
  | @call log arrays _ k ih =>
      cases k with
      | on k r =>
          rw [histories_on rfl]
          rcases forall₂_getElem? ih k with ⟨hk, hm⟩ | ⟨a, history, hk, hm, ha⟩
          · rw [Arrays.next_absent hk, List.modify_eq_self (List.getElem?_eq_none_iff.1 hm)]
            exact ih
          · rw [Arrays.next_on hk]
            refine forall₂_set_modify ih fun history' hm' => ?_
            obtain rfl : history = history' := Option.some.inj (hm.symm.trans hm')
            have houtcome : (Event.ofCall sparseArrays.perform (.on k r) arrays).outcome =
                (sparseArrays.serve r).outcome a := Arrays.outcome_on hk
            rw [houtcome]
            exact ha.serve r
      | copy k =>
          rw [Arrays.next_copy, histories]
          refine List.rel_append ih ?_
          rcases forall₂_getElem? ih k with ⟨hk, hm⟩ | ⟨a, history, hk, hm, ha⟩
          · rw [hk, hm]
            exact .nil
          · rw [hk, hm]
            exact .cons ha .nil

theorem tracks_ofCluster (hc : 2 ≤ c) : ∃ first : SparseArray α, ofCluster c = .ok first ∧ Tracks c [] first := by
  refine ⟨⟨c, hc, 0, 0, none⟩, dif_pos hc, ⟨rfl, Nat.zero_le _, fun _ => nofun, fun b _ => ?_, fun b hb => ?_⟩⟩
  · exact iff_of_false Bool.false_ne_true not_stays_nil
  · exact absurd hb not_stays_nil

/-- Whatever is done with an empty array and copies of it, the leaves that an array stores are as many as the
blocks of which an element has been asked for and which no later resize has cut off; all of them begin before the
end. An array that keeps all its places has as many. -/
theorem leaves_of_run [Inhabited α] {c : Nat} (hc : 2 ≤ c) : ∃ first : SparseArray α, ofCluster c = .ok first ∧
    ∀ {log : List (Event (Call α) SparseError (List (SparseArray α)) (Answer α))} {arrays : List (SparseArray α)},
      Runs sparseArrays.perform [first] log arrays →
        List.Forall₂ (fun a history => ∃ blocks : Finset Nat, (∀ b, b ∈ blocks ↔ Stays c b history) ∧
          a.leaves = blocks.card ∧ a.stored.leaves = blocks.card ∧ ∀ b ∈ blocks, b * c < a.size)
          arrays (histories log) := by
  obtain ⟨first, hfirst, htracks⟩ := tracks_ofCluster (α := α) hc
  refine ⟨first, hfirst, fun hrun => (tracks_of_run htracks hrun).imp fun a history h => ?_⟩
  obtain ⟨blocks, hblocks, hcard⟩ := h.leaves_eq_card
  exact ⟨blocks, hblocks, hcard, h.fitting.leaves_stored.trans hcard, fun b hb => h.inside b ((hblocks b).1 hb)⟩

/-- Of three leaves on four levels a resize cuts off the last one; a refused resize and reading change nothing.
A copy that is emptied and grows again has none. -/
theorem leaves_of_run_of_cut : 2 ≤ 2 ∧ ∃ (first : SparseArray Nat)
    (log : List (Event (Call Nat) SparseError (List (SparseArray Nat)) (Answer Nat))) (a b : SparseArray Nat),
      ofCluster 2 = .ok first ∧ Runs sparseArrays.perform [first] log [a, b] ∧ a.leaves = 2 ∧ b.leaves = 0 ∧
        List.Forall₂ (fun a history => ∃ blocks : Finset Nat, (∀ b, b ∈ blocks ↔ Stays 2 b history) ∧
          a.leaves = blocks.card ∧ a.stored.leaves = blocks.card ∧ ∀ b ∈ blocks, b * 2 < a.size)
          [a, b] (histories log) := by
  obtain ⟨first, hfirst, h⟩ := leaves_of_run (α := Nat) (Nat.le_refl 2)
  let calls : List (Call Nat) := [.on 0 (.resize 11), .on 0 (.update 10 id), .on 0 (.update 0 id), .on 0 (.get 5),
    .on 0 (.update 9 fun _ => 3), .on 0 (.update 11 id), .on 0 (.resize 10), .on 0 (.resize maxCapacity), .copy 0,
    .on 1 (.resize 0), .on 1 (.resize 9), .on 1 .elements]
  have hrun := runs_events sparseArrays.perform calls [first]
  have hseen : (ofCluster 2).toOption.map (fun a : SparseArray Nat =>
      (Operation.after sparseArrays.perform calls [a]).map leaves) = some [2, 0] := by
    decide +kernel
  rw [hfirst] at hseen
  injection hseen with hseen
  obtain ⟨a, rest, harrays, ha, hrest⟩ := List.map_eq_cons_iff.1 hseen
  obtain ⟨b, hb, hleaves⟩ := List.map_eq_singleton_iff.1 hrest
  rw [harrays, hb] at hrun
  exact ⟨Nat.le_refl 2, first, _, a, b, hfirst, hrun, ha, hleaves, h hrun⟩

end PdfStore.SparseArray
