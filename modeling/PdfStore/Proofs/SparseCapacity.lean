import Mathlib.Data.Nat.Log
import Mathlib.Order.Bounds.Defs
import PdfStore.Proofs.DequeRuns

/-!
# Capacities of sparse arrays

A resize that succeeds leaves the least power of the cluster size that has room (`sufficientPowers`), from
whatever capacity it starts. One that is refused has added levels until no more power fits into a word, and
leaves them; the elements and the leaves are as before. An array that multiplies and divides a counted
capacity (`Stored`) has the same capacity and finds the same depth (`Stored.depth`).
-/

namespace PdfStore.SparseArray

variable {α : Type}

/-- The powers of the cluster size that count `n` positions and fit into a word. -/
def sufficientPowers (c n : Nat) : Set Nat :=
  {p | ∃ k, 1 ≤ k ∧ p = Nat.pow c k ∧ n ≤ p ∧ p ≤ maxCapacity}

theorem nonempty_sufficientPowers_iff {c n : Nat} (hc : 2 ≤ c) (hword : c ≤ maxCapacity) :
    (sufficientPowers c n).Nonempty ↔ HasRoom c n := by
  constructor
  · rintro ⟨p, k, -, rfl, hn, hp⟩
    have hclog : Nat.clog c n ≤ k := Nat.clog_le_of_le_pow hn
    exact Or.inr (Nat.le_trans (Nat.pow_le_pow_right (by omega) hclog) hp)
  · rintro (hn | hp)
    · exact ⟨c, 1, Nat.le_refl 1, (Nat.pow_one c).symm, hn, hword⟩
    · by_cases hn : n ≤ c
      · exact ⟨c, 1, Nat.le_refl 1, (Nat.pow_one c).symm, hn, hword⟩
      · exact ⟨_, Nat.clog c n, Nat.clog_pos hc (by omega), rfl, Nat.le_pow_clog hc n, hp⟩

/-! ## The depth that a capacity tells -/

/-- How many levels a capacity has, if it is divided until no more than one leaf is left. -/
def levels {c : Nat} (hc : 2 ≤ c) (capacity : Nat) : Nat :=
  if _h : c < capacity then levels hc (capacity / c) + 1 else 1
termination_by capacity
decreasing_by exact Nat.div_lt_self (Nat.zero_lt_of_lt _h) hc

def Stored.depth (s : Stored α) : Nat := levels s.two_le_cluster s.capacity

theorem levels_span {c : Nat} (hc : 2 ≤ c) (h : Nat) : levels hc (Node.span c h) = h + 1 := by
  induction h with
  | zero => rw [levels, Node.span_zero, dif_neg (Nat.lt_irrefl c)]
  | succ h ih =>
      have hlt := Nat.lt_of_le_of_ne (Node.le_span c (h + 1)) (Node.span_succ_ne hc h).symm
      rw [levels, dif_pos hlt, Node.span_succ_div hc, ih]

theorem depth_stored [Inhabited α] (a : SparseArray α) : a.stored.depth = a.depth :=
  levels_span a.two_le_cluster a.height

/-! ## Resizing that succeeds -/

/-- Levels are taken off as long as one less has room. -/
theorem span_lt_of_lt_lowered {c n k : Nat} (hc : 0 < c) {h : Nat} {root : Option (Node α h)}
    (hk : k < (lowered c n h root).1) : Node.span c k < n := by
  induction h with
  | zero => exact absurd hk (Nat.not_lt_zero k)
  | succ h ih =>
      rw [lowered] at hk
      split at hk
      · exact ih hk
      · have hle : Node.span c k ≤ Node.span c h := Nat.pow_le_pow_right hc hk
        omega

/-- What a resize leaves of the levels that it has found or added. -/
theorem height_of_resize {n : Nat} {a b : SparseArray α} (h : resize n a = .ok () b) :
    ∃ g : SparseArray α, grow n a = .ok () g ∧ b.cluster = g.cluster ∧ b.height = (g.lower n).height := by
  obtain ⟨_, g, hg, -⟩ := Operation.bind_ok h
  refine ⟨g, hg, ?_⟩
  rw [resize_eq_of_grow hg] at h
  injection h with _ hb
  rw [← hb]
  split <;> exact ⟨rfl, rfl⟩

variable [Inhabited α] {c : Nat}

theorem Sound.capacity_le (hword : c ≤ maxCapacity) {a : SparseArray α} (h : a.Sound c) :
    a.capacity ≤ maxCapacity := by
  rcases h.counted with hzero | hcap
  · rw [capacity, hzero, Node.span_zero, h.cluster_eq]
    exact hword
  · exact hcap

theorem Sound.capacity_eq {a : SparseArray α} (h : a.Sound c) : a.capacity = Nat.pow c a.depth := by
  rw [capacity, h.cluster_eq]
  rfl

theorem Sound.next_resize (n : Nat) {a : SparseArray α} (h : a.Sound c) : ((resize n).next a).Sound c := by
  have hnext : (sparseArrays.serve (.resize n)).next a = (resize n).next a := Operation.next_bind_pure ..
  exact hnext ▸ sound_serve (.resize n) h

theorem Sound.of_resize {n : Nat} {a b : SparseArray α} (h : a.Sound c) (hok : resize n a = .ok () b) :
    b.Sound c ∧ b.size = n := by
  refine ⟨Operation.next_ok hok ▸ h.next_resize n, ?_⟩
  obtain ⟨g, hg, -⟩ := height_of_resize hok
  rw [resize_eq_of_grow hg] at hok
  injection hok with _ hb
  rw [← hb]

/-- The capacity after a resize that succeeds is the least one that has room. -/
theorem isLeast_capacity (hword : c ≤ maxCapacity) {n : Nat} {a b : SparseArray α} (h : a.Sound c)
    (hok : resize n a = .ok () b) : IsLeast (sufficientPowers c n) b.capacity := by
  obtain ⟨hb, hsize⟩ := h.of_resize hok
  obtain ⟨g, -, hcluster, hheight⟩ := height_of_resize hok
  have hc : 0 < c := hb.cluster_eq ▸ b.cluster_pos
  refine ⟨⟨b.depth, Nat.le_add_left 1 b.height, hb.capacity_eq, hsize ▸ hb.clean.size_le, hb.capacity_le hword⟩, ?_⟩
  rintro p ⟨k, hk, rfl, hn, -⟩
  -- A power below the capacity belongs to a height below that of the root, which has no room.
  have hdepth : b.depth ≤ k := by
    by_contra hlt
    rw [depth] at hlt
    have hlow : k - 1 < (g.lower n).height := by omega
    have hspan := span_lt_of_lt_lowered (hcluster ▸ b.cluster_pos) hlow
    rw [← hcluster, hb.cluster_eq, Node.span, Nat.sub_add_cancel hk] at hspan
    omega
  rw [hb.capacity_eq]
  exact Nat.pow_le_pow_right hc hdepth

/-! ## Resizing that is refused -/

omit [Inhabited α] in
/-- What levels above the root leave alone, growing leaves alone, whether or not there is room in the end. -/
theorem next_grow {P : SparseArray α → Prop} (hraise : ∀ {a}, P a → P a.raise) (n : Nat) {a : SparseArray α}
    (h : P a) : P ((grow n).next a) := by
  induction a using grow.induct n with
  | case1 a hlt hle ih =>
      rw [Operation.next, grow, if_pos hlt, if_pos hle]
      exact ih (hraise h)
  | case2 a hlt hle =>
      rw [Operation.next, grow, if_pos hlt, if_neg hle]
      exact h
  | case3 a hlt =>
      rw [Operation.next, grow, if_neg hlt]
      exact h

omit [Inhabited α] in
theorem leaves_raise (a : SparseArray α) : a.raise.leaves = a.leaves := by
  obtain ⟨c, hc, size, h, root⟩ := a
  cases root <;> rfl

omit [Inhabited α] in
theorem grow_of_full {a : SparseArray α} (h : maxCapacity < a.raise.capacity) (n : Nat) : (grow n).next a = a := by
  rw [Operation.next, grow]
  by_cases hn : a.capacity < n
  · rw [if_pos hn, if_neg (Nat.not_le.2 h)]
  · rw [if_neg hn]

omit [Inhabited α] in
/-- Growing is refused when another level would pass the word. -/
theorem full_of_grow {n : Nat} {e : SparseError} {a b : SparseArray α} (h : grow n a = .error e b) :
    maxCapacity < b.raise.capacity := by
  induction a using grow.induct n with
  | case1 a hlt hle ih =>
      rw [grow, if_pos hlt, if_pos hle] at h
      exact ih h
  | case2 a hlt hle =>
      rw [grow, if_pos hlt, if_neg hle] at h
      injection h with _ hb
      subst hb
      exact Nat.not_le.1 hle
  | case3 a hlt =>
      rw [grow, if_neg hlt] at h
      cases h

omit [Inhabited α] in
theorem grow_of_resize_error {n : Nat} {e : SparseError} {a b : SparseArray α} (h : resize n a = .error e b) :
    grow n a = .error e b := by
  cases hg : grow n a with
  | ok u g =>
      rw [resize_eq_of_grow hg] at h
      cases h
  | error e' g => rwa [resize, Operation.bind_of_error hg] at h

/-- A capacity that no level can be added to is the largest one. -/
theorem Sound.depth_of_full (hword : c ≤ maxCapacity) {a : SparseArray α} (h : a.Sound c)
    (hfull : maxCapacity < a.raise.capacity) : a.depth = Nat.log c maxCapacity := by
  refine (Nat.log_eq_of_pow_le_of_lt_pow ?_ ?_).symm
  · exact Nat.le_trans (Nat.le_of_eq h.capacity_eq.symm) (h.capacity_le hword)
  · rw [capacity_raise, h.cluster_eq, h.capacity_eq] at hfull
    exact hfull

/-! ## Runs -/

theorem sound_of_run {first : SparseArray α}
    {log : List (Event (Call α) SparseError (List (SparseArray α)) (Answer α))} {arrays : List (SparseArray α)}
    (hfirst : first.Sound c) (h : Runs sparseArrays.perform [first] log arrays) : ∀ a ∈ arrays, a.Sound c :=
  (h.forall_event (P := fun arrays => ∀ a ∈ arrays, Sound c a) (Q := fun _ => True) (fun _ _ _ => trivial)
    (fun k _ hs => Simulates.kept sound_serve k hs) (by simpa using hfirst)).2

/-- Wherever calls have led an array, refused ones included, a resize succeeds exactly if some power of the
cluster size has room and fits into a word. Then the capacity is the least such power and the depth its
exponent, and so they are in an array that multiplies and divides its capacity. -/
theorem resizes_to_least_power {c : Nat} (hc : 2 ≤ c) (hword : c ≤ maxCapacity) :
    ∃ first : SparseArray α, ofCluster c = .ok first ∧
      ∀ {log : List (Event (Call α) SparseError (List (SparseArray α)) (Answer α))} {arrays : List (SparseArray α)},
        Runs sparseArrays.perform [first] log arrays → ∀ a ∈ arrays, ∀ n,
          ((∃ b, resize n a = .ok () b) ↔ (sufficientPowers c n).Nonempty) ∧
          ∀ b, resize n a = .ok () b →
            IsLeast (sufficientPowers c n) b.capacity ∧ b.capacity = Nat.pow c b.depth ∧ 1 ≤ b.depth ∧
            Stored.resize n a.stored = .ok () b.stored ∧ b.stored.capacity = b.capacity ∧
              b.stored.depth = b.depth := by
  obtain ⟨first, hfirst, hsound, -⟩ := sound_ofCluster (α := α) hc
  refine ⟨first, hfirst, fun hrun a ha n => ⟨?_, fun b hb => ?_⟩⟩
  · have h := sound_of_run hsound hrun a ha
    rw [nonempty_sufficientPowers_iff hc hword]
    obtain ⟨b, -, ⟨hok, hroom, -⟩ | ⟨herr, hroom, -⟩⟩ := resize_sound n h
    · exact ⟨fun _ => hroom, fun _ => ⟨b, hok⟩⟩
    · refine ⟨fun ⟨b', hok⟩ => ?_, fun hroom' => absurd hroom' hroom⟩
      rw [hok] at herr
      cases herr
  · have h := sound_of_run hsound hrun a ha
    refine ⟨isLeast_capacity hword h hb, (h.of_resize hb).1.capacity_eq, Nat.le_add_left 1 b.height, ?_, rfl,
      depth_stored b⟩
    rw [Stored.resize_stored, hb]
    rfl

/-- A refused resize has left the largest capacity, of forty levels; the next one finds its way back to three. -/
theorem resizes_to_least_power_of_refused : 2 ≤ 3 ∧ 3 ≤ maxCapacity ∧ ∃ (first : SparseArray Nat)
    (log : List (Event (Call Nat) SparseError (List (SparseArray Nat)) (Answer Nat))) (a b : SparseArray Nat),
      ofCluster 3 = .ok first ∧ Runs sparseArrays.perform [first] log [a] ∧ a.depth = 40 ∧
        resize 10 a = .ok () b ∧ IsLeast (sufficientPowers 3 10) b.capacity ∧ b.capacity = 27 ∧ b.depth = 3 ∧
        (sufficientPowers 3 10).Nonempty ∧ ¬(sufficientPowers 3 maxCapacity).Nonempty ∧
        Stored.resize 10 a.stored = .ok () b.stored ∧ b.stored.depth = 3 := by
  obtain ⟨first, hfirst, h⟩ := resizes_to_least_power (α := Nat) (c := 3) (by decide) (by decide)
  let calls : List (Call Nat) := [.on 0 (.resize 5), .on 0 (.resize maxCapacity)]
  have hrun := runs_events sparseArrays.perform calls [first]
  have hseen : (ofCluster 3).toOption.map (fun a : SparseArray Nat =>
      (Operation.after sparseArrays.perform calls [a]).map fun a =>
        (a.depth, ((resize 10).outcome a).toOption, ((resize 10).next a).capacity, ((resize 10).next a).depth,
          ((resize maxCapacity).outcome a).isOk)) = some [(40, some (), 27, 3, false)] := by
    decide +kernel
  rw [hfirst] at hseen
  injection hseen with hseen
  obtain ⟨a, ha, hseen⟩ := List.map_eq_singleton_iff.1 hseen
  simp only [Prod.mk.injEq] at hseen
  obtain ⟨hdepth, hok, hcapacity, hlevels, hrefused⟩ := hseen
  rw [ha] at hrun
  have hok := Operation.ok_of_outcome hok
  obtain ⟨e, herr⟩ := Operation.error_of_outcome hrefused
  -- What the calls lead to is not to be computed again.
  generalize (resize 10).next a = b at hok hcapacity hlevels
  generalize (resize maxCapacity).next a = r at herr
  obtain ⟨hleast, -, -, hstored, -, hsame⟩ := (h hrun a List.mem_cons_self 10).2 b hok
  refine ⟨by decide, by decide, first, _, a, b, hfirst, hrun, hdepth, hok, hleast, hcapacity, hlevels,
    ⟨_, hleast.1⟩, fun hroom => ?_, hstored, hsame.trans hlevels⟩
  obtain ⟨b', hok'⟩ := (h hrun a List.mem_cons_self maxCapacity).1.2 hroom
  rw [hok'] at herr
  cases herr

/-- A resize that is refused changes neither the elements nor the leaves of an array. Its levels are then as
many as a word can count, whatever they were before; only an array that had them already is left as it was. -/
theorem refused_resize_fills {c : Nat} (hc : 2 ≤ c) (hword : c ≤ maxCapacity) :
    ∃ first : SparseArray α, ofCluster c = .ok first ∧
      ∀ {log : List (Event (Call α) SparseError (List (SparseArray α)) (Answer α))} {arrays : List (SparseArray α)},
        Runs sparseArrays.perform [first] log arrays → ∀ a ∈ arrays, ∀ {n e b}, resize n a = .error e b →
          e = .capacityOverflow n ∧ b.size = a.size ∧ b.leaves = a.leaves ∧ (∀ i, b.get? i = a.get? i) ∧
            b.depth = Nat.log c maxCapacity ∧ b.capacity = Nat.pow c (Nat.log c maxCapacity) ∧
            (a.depth = Nat.log c maxCapacity → b = a) ∧
            Stored.resize n a.stored = .error (.refused e) b.stored ∧ b.stored.depth = b.depth := by
  obtain ⟨first, hfirst, hsound, -⟩ := sound_ofCluster (α := α) hc
  refine ⟨first, hfirst, fun {log arrays} hrun a ha {n e b} herr => ?_⟩
  have h := sound_of_run hsound hrun a ha
  have hgrow := grow_of_resize_error herr
  have hnext : (grow n).next a = b := Operation.next_error hgrow
  have hb : b.Sound c := Operation.next_error herr ▸ h.next_resize n
  have hdepth := hb.depth_of_full hword (full_of_grow hgrow)
  have hleaves : b.leaves = a.leaves :=
    hnext ▸ next_grow (P := fun b => b.leaves = a.leaves) (fun {b} hb => (leaves_raise b).trans hb) n rfl
  obtain ⟨r, -, ⟨hok, -⟩ | ⟨herr', -, hlist⟩⟩ := resize_sound n h
  · rw [herr] at hok
    cases hok
  rw [herr] at herr'
  injection herr' with he hr
  subst hr
  refine ⟨he, ?_, hleaves, fun i => ?_, hdepth, hdepth ▸ hb.capacity_eq, fun hfull => ?_, ?_, depth_stored b⟩
  · rw [← length_toList, hlist, length_toList]
  · rw [← getElem?_toList, hlist, getElem?_toList]
  · rw [← hnext]
    refine grow_of_full ?_ n
    rw [capacity_raise, h.cluster_eq, h.capacity_eq, hfull]
    exact Nat.lt_pow_succ_log_self hc maxCapacity
  · rw [Stored.resize_stored, herr]
    rfl

/-- An array of four elements, one leaf of which is stored, comes to sixty-three levels when it is refused more
elements than a word can count. -/
theorem refused_resize_fills_of_small : 2 ≤ 2 ∧ 2 ≤ maxCapacity ∧ ∃ (first : SparseArray Nat)
    (log : List (Event (Call Nat) SparseError (List (SparseArray Nat)) (Answer Nat))) (a b : SparseArray Nat),
      ofCluster 2 = .ok first ∧ Runs sparseArrays.perform [first] log [a] ∧ a.depth = 2 ∧
        resize maxCapacity a = .error (.capacityOverflow maxCapacity) b ∧ b.size = 4 ∧ b.leaves = 1 ∧
        b.get? 3 = some 7 ∧ b.depth = 63 ∧ b.capacity = 9223372036854775808 ∧
        Stored.resize maxCapacity a.stored = .error (.refused (.capacityOverflow maxCapacity)) b.stored := by
  obtain ⟨first, hfirst, h⟩ := refused_resize_fills (α := Nat) (Nat.le_refl 2) (by decide)
  let calls : List (Call Nat) := [.on 0 (.resize 4), .on 0 (.update 3 fun _ => 7)]
  have hrun := runs_events sparseArrays.perform calls [first]
  have hseen : (ofCluster 2).toOption.map (fun a : SparseArray Nat =>
      (Operation.after sparseArrays.perform calls [a]).map fun a =>
        ((a.depth, a.size, a.leaves), a.get? 3, ((resize maxCapacity).outcome a).isOk)) =
      some [((2, 4, 1), some 7, false)] := by
    decide +kernel
  rw [hfirst] at hseen
  injection hseen with hseen
  obtain ⟨a, ha, hseen⟩ := List.map_eq_singleton_iff.1 hseen
  simp only [Prod.mk.injEq] at hseen
  obtain ⟨⟨hdepth, hsize, hleaves⟩, hget, hrefused⟩ := hseen
  rw [ha] at hrun
  obtain ⟨e, herr⟩ := Operation.error_of_outcome hrefused
  -- What the resize leads to is not to be computed again.
  generalize (resize maxCapacity).next a = b at herr
  obtain ⟨rfl, hsize', hleaves', hget', hdepth', hcapacity', -, hstored, -⟩ := h hrun a List.mem_cons_self herr
  have hlog : Nat.log 2 maxCapacity = 63 := Nat.log_eq_of_pow_le_of_lt_pow (by decide) (by decide)
  rw [hlog] at hdepth' hcapacity'
  exact ⟨Nat.le_refl 2, by decide, first, _, a, b, hfirst, hrun, hdepth, herr, hsize'.trans hsize,
    hleaves'.trans hleaves, (hget' 3).trans hget, hdepth', hcapacity', hstored⟩

/-- A resize that is refused is not without effect: an empty array has more levels than before. -/
theorem not_unchanged_of_refused : ¬∀ (c : Nat) (first : SparseArray Nat)
    (log : List (Event (Call Nat) SparseError (List (SparseArray Nat)) (Answer Nat)))
    (arrays : List (SparseArray Nat)), ofCluster c = .ok first → Runs sparseArrays.perform [first] log arrays →
      ∀ a ∈ arrays, ∀ n b, resize n a = .error (.capacityOverflow n) b →
        b.size = a.size ∧ b.capacity = a.capacity ∧ b.depth = a.depth ∧ b.leaves = a.leaves ∧
          ∀ i, b.get? i = a.get? i := by
  intro h
  let first : SparseArray Nat := ⟨2, Nat.le_refl 2, 0, 0, none⟩
  have hrefused : (resize maxCapacity).outcome first = .error (.capacityOverflow maxCapacity) ∧
      ((resize maxCapacity).next first).depth = 63 := by
    decide +kernel
  obtain ⟨e, herr⟩ := Operation.error_of_outcome (congrArg Except.isOk hrefused.1)
  have he := Operation.outcome_error herr
  rw [hrefused.1] at he
  injection he with he
  rw [← he] at herr
  have hdepth := (h 2 first [] [first] rfl .none first List.mem_cons_self maxCapacity _ herr).2.2.1
  rw [hrefused.2] at hdepth
  exact absurd hdepth (by decide)

end PdfStore.SparseArray
