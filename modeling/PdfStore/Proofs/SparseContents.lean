import Mathlib.Logic.Basic
import PdfStore.Proofs.Runs
import PdfStore.Sparse.Array

/-!
# The contents of sparse arrays

Every operation of a sparse array is one on the list of its elements. What makes this true is that cells
past the last element hold the default (`SparseArray.Clean`), so that growing brings nothing back.
-/

namespace PdfStore.SparseArray

variable {α : Type}

namespace Node

/-! ## Cells of a node -/

theorem get?_empty (c h i : Nat) : get? c h i (empty h : Node α h) = none := by
  cases h <;> simp [get?, empty, child?]

/-- A level above the root leaves the cells where they are. -/
theorem get?_above {c h i : Nat} (hc : 0 < c) (node : Node α h) :
    get? c (h + 1) i node.above = if i < span c h then get? c h i node else none := by
  by_cases hi : i < span c h
  · simp [get?, child?, above, Nat.div_eq_of_lt hi, Nat.mod_eq_of_lt hi, hi]
  · have : 1 ≤ i / span c h := (Nat.one_le_div_iff (span_pos hc h)).2 (by omega)
    simp [get?, child?, above, hi, List.getElem?_eq_none, this]

/-- The first child holds the first cells. -/
theorem get?_child?_zero {c h i : Nat} (hi : i < span c h) (node : Node α (h + 1)) :
    (node.child? 0).bind (get? c h i) = get? c (h + 1) i node := by
  simp [get?, Nat.div_eq_of_lt hi, Nat.mod_eq_of_lt hi]

/-- What `keep` leaves of a node are its first cells. -/
theorem get?_keep {c : Nat} (hc : 0 < c) (h n j : Nat) (node : Node α h) :
    (keep c h n node).bind (get? c h j) = if j < n then get? c h j node else none := by
  induction h generalizing n j with
  | zero =>
      cases n with
      | zero => simp [keep]
      | succ n =>
          change List α at node
          change (node.take (n + 1))[j]? = if j < n + 1 then node[j]? else none
          exact List.getElem?_take
  | succ h ih =>
      cases n with
      | zero => simp [keep]
      | succ n =>
          change List (Option (Node α h)) at node
          -- Children before the last one that is kept stay whole; only that one is cut itself.
          change (((node.take (n / span c h + 1)).modify (n / span c h) fun child =>
              child.bind (keep c h (n + 1 - n / span c h * span c h)))[j / span c h]?.join).bind
                (get? c h (j % span c h)) =
            if j < n + 1 then (node[j / span c h]?.join).bind (get? c h (j % span c h)) else none
          have hj := Nat.div_add_mod j (span c h)
          have hn := Nat.div_add_mod n (span c h)
          have hjm := Nat.mod_lt j (span_pos hc h)
          have hnm := Nat.mod_lt n (span_pos hc h)
          rw [List.getElem?_modify, List.getElem?_take]
          rcases Nat.lt_trichotomy (j / span c h) (n / span c h) with hlt | heq | hgt
          · have hle := Nat.mul_le_mul_left (span c h) (Nat.succ_le_of_lt hlt)
            rw [Nat.mul_succ] at hle
            rw [if_pos (by omega), if_pos (by omega)]
            simp only [if_neg (Nat.ne_of_gt hlt), Option.map_eq_map, Option.map_id']
          · rw [heq] at hj
            rw [heq, if_pos (Nat.lt_succ_self _), Nat.mul_comm (n / span c h)]
            cases node[n / span c h]? with
            | none => simp
            | some child =>
                cases child with
                | none => simp
                | some child =>
                    simp only [Option.map_eq_map, Option.map_some, ↓reduceIte, Option.bind_some,
                      Option.join_some, ih]
                    exact if_congr (by omega) rfl rfl
          · have hle := Nat.mul_le_mul_left (span c h) (Nat.succ_le_of_lt hgt)
            rw [Nat.mul_succ] at hle
            rw [if_neg (by omega), if_neg (by omega)]
            simp

/-- Reading a list is not changed by filling it up with the default. -/
theorem getD_rightpad (d : α) (l : List α) (n i : Nat) : (l.rightpad n d)[i]?.getD d = l[i]?.getD d := by
  rw [List.rightpad, List.getElem?_append]
  split
  · rfl
  · rename_i hi
    rw [List.getElem?_eq_none (Nat.le_of_not_lt hi), List.getElem?_replicate]
    split <;> rfl

theorem length_rightpad_gt (d : α) (l : List α) (i : Nat) : i < (l.rightpad (i + 1) d).length := by
  simp only [List.rightpad, List.length_append, List.length_replicate]
  omega

variable [Inhabited α]

/-- Changing one cell changes no other. -/
theorem getD_update {c : Nat} (f : α → α) (h i j : Nat) (node : Node α h) :
    (get? c h j (update c f h i node)).getD default =
      if j = i then f ((get? c h i node).getD default) else (get? c h j node).getD default := by
  induction h generalizing i j with
  | zero =>
      change List α at node
      change ((node.rightpad (i + 1) default).modify i f)[j]?.getD default =
        if j = i then f (node[i]?.getD default) else node[j]?.getD default
      rw [List.getElem?_modify]
      by_cases hji : j = i
      · subst hji
        rw [if_pos rfl, ← getD_rightpad default node (j + 1),
          List.getElem?_eq_getElem (length_rightpad_gt default node j)]
        simp
      · simp only [if_neg (Ne.symm hji), if_neg hji, Option.map_eq_map, Option.map_id']
        exact getD_rightpad default node (i + 1) j
  | succ h ih =>
      change List (Option (Node α h)) at node
      have hi := Nat.div_add_mod i (span c h)
      have hj := Nat.div_add_mod j (span c h)
      change ((((node.rightpad (i / span c h + 1) none).modify (i / span c h) fun child =>
          some (update c f h (i % span c h) (child.getD (empty h))))[j / span c h]?.join).bind
            (get? c h (j % span c h))).getD default =
        if j = i then f (((node[i / span c h]?.join).bind (get? c h (i % span c h))).getD default)
        else ((node[j / span c h]?.join).bind (get? c h (j % span c h))).getD default
      have hpad (p q : Nat) : (node.rightpad (p + 1) none)[q]?.join = node[q]?.join := by
        have join_eq (o : Option (Option (Node α h))) : o.join = o.getD none := by cases o <;> rfl
        rw [join_eq, join_eq, getD_rightpad]
      have hempty (child : Option (Node α h)) (k : Nat) :
          (get? c h k (child.getD (empty h))).getD default = (child.bind (get? c h k)).getD default := by
        cases child with
        | none => simp [get?_empty]
        | some child => rfl
      rw [List.getElem?_modify]
      by_cases hp : j / span c h = i / span c h
      · rw [hp, List.getElem?_eq_getElem (length_rightpad_gt none node _)]
        have hchild := hpad (i / span c h) (i / span c h)
        rw [List.getElem?_eq_getElem (length_rightpad_gt none node _), Option.join_some] at hchild
        simp only [Option.map_eq_map, Option.map_some, ↓reduceIte, Option.join_some, Option.bind_some, ih,
          hempty, hchild]
        rw [hp] at hj
        exact if_congr (by omega) rfl rfl
      · have hji : j ≠ i := fun e => hp (e ▸ rfl)
        simp only [if_neg (Ne.symm hp), if_neg hji, Option.map_eq_map, Option.map_id', hpad]

end Node

/-! ## Levels -/

/-- Levels are taken off only while the first child has room, so no cell that is left has moved. -/
theorem lowered_spec {c n : Nat} (hc : 0 < c) (h : Nat) (root : Option (Node α h)) :
    Node.span c (lowered c n h root).1 ≤ Node.span c h ∧
      (n ≤ Node.span c h → n ≤ Node.span c (lowered c n h root).1) ∧
      ∀ i, i < Node.span c (lowered c n h root).1 →
        (lowered c n h root).2.bind (Node.get? c (lowered c n h root).1 i) = root.bind (Node.get? c h i) := by
  induction h with
  | zero => exact ⟨Nat.le_refl _, id, fun _ _ => rfl⟩
  | succ h ih =>
      simp only [lowered]
      by_cases hn : n ≤ Node.span c h
      · rw [if_pos hn]
        obtain ⟨hle, hroom, hcells⟩ := ih (root.bind (Node.child? 0))
        have hstep : Node.span c h ≤ Node.span c (h + 1) := Nat.le_mul_of_pos_right _ hc
        refine ⟨Nat.le_trans hle hstep, fun _ => hroom hn, fun i hi => ?_⟩
        rw [hcells i hi]
        cases root with
        | none => rfl
        | some node => exact Node.get?_child?_zero (Nat.lt_of_lt_of_le hi hle) node
      · rw [if_neg hn]
        exact ⟨Nat.le_refl _, id, fun _ _ => rfl⟩

theorem cluster_pos (a : SparseArray α) : 0 < a.cluster := Nat.lt_of_lt_of_le (by decide) a.two_le_cluster

theorem cluster_le_capacity (a : SparseArray α) : a.cluster ≤ a.capacity := by
  change a.cluster ≤ a.cluster ^ (a.height + 1)
  rw [Nat.pow_succ]
  exact Nat.le_mul_of_pos_left _ (Nat.pow_pos a.cluster_pos)

/-- The capacity of an array of a few thousand million elements never becomes too large. -/
theorem grow_ok {n : Nat} (hn : n ≤ 4294967296) (a : SparseArray α) : ∃ b, grow n a = .ok () b := by
  induction a using grow.induct n with
  | case1 a hlt hle ih => rwa [grow, if_pos hlt, if_pos hle]
  | case2 a hlt hle =>
      refine absurd ?_ hle
      have hc := a.cluster_le_capacity
      calc a.raise.capacity = a.capacity * a.cluster := capacity_raise a
        _ ≤ 4294967295 * 4294967295 := Nat.mul_le_mul (by omega) (by omega)
        _ ≤ maxCapacity := by decide
  | case3 a hlt => exact ⟨a, by rw [grow, if_neg hlt]⟩

variable [Inhabited α]

/-- There is room for the elements, and what lies past them holds the default. -/
structure Clean (a : SparseArray α) : Prop where
  size_le : a.size ≤ a.capacity
  rest : ∀ i, a.size ≤ i → i < a.capacity → a.cell i = default

theorem length_toList (a : SparseArray α) : a.toList.length = a.size := by simp [toList]

theorem getElem?_toList (a : SparseArray α) (i : Nat) : a.toList[i]? = a.get? i := by
  simp only [toList, get?, List.getElem?_map]
  split
  · simp [List.getElem?_range ‹_›]
  · simp [Nat.le_of_not_lt ‹_›]

/-- The same elements in an array that has room. -/
structure SameElements (a b : SparseArray α) : Prop where
  clean : b.Clean
  size_eq : b.size = a.size
  cells : ∀ i, i < a.size → b.cell i = a.cell i

theorem SameElements.refl {a : SparseArray α} (h : a.Clean) : SameElements a a :=
  ⟨h, rfl, fun _ _ => rfl⟩

theorem SameElements.trans {a b c : SparseArray α} (h₁ : SameElements a b) (h₂ : SameElements b c) :
    SameElements a c :=
  ⟨h₂.clean, h₂.size_eq.trans h₁.size_eq,
    fun i hi => (h₂.cells i (h₁.size_eq ▸ hi)).trans (h₁.cells i hi)⟩

theorem SameElements.toList_eq {a b : SparseArray α} (h : SameElements a b) : b.toList = a.toList := by
  apply List.ext_getElem?
  intro i
  simp only [getElem?_toList, get?, h.size_eq]
  split
  · rw [h.cells i ‹_›]
  · rfl

theorem cell_raise (a : SparseArray α) (i : Nat) :
    a.raise.cell i = if i < a.capacity then a.cell i else default := by
  simp only [cell, raise]
  cases a.root with
  | none => simp
  | some node =>
      simp only [Option.map_some, Option.bind_some, Node.get?_above a.cluster_pos]
      exact apply_ite (Option.getD · default) _ _ _

theorem same_raise {a : SparseArray α} (h : a.Clean) : SameElements a a.raise where
  clean := by
    refine ⟨Nat.le_trans h.size_le (Nat.le_of_lt (capacity_lt_capacity_raise a)), fun i hi _ => ?_⟩
    rw [cell_raise]
    split
    · exact h.rest i hi ‹_›
    · rfl
  size_eq := rfl
  cells := fun i hi => by rw [cell_raise, if_pos (Nat.lt_of_lt_of_le hi h.size_le)]

/-- Adding levels keeps the elements, whether or not there is room in the end. -/
theorem grow_spec (n : Nat) (a : SparseArray α) (h : a.Clean) :
    ∃ b, SameElements a b ∧
      (grow n a = .ok () b ∧ n ≤ b.capacity ∨ grow n a = .error (.capacityOverflow n) b) := by
  induction a using grow.induct n with
  | case1 a hlt hle ih =>
      obtain ⟨b, hb, hr⟩ := ih (same_raise h).clean
      rw [grow, if_pos hlt, if_pos hle]
      exact ⟨b, (same_raise h).trans hb, hr⟩
  | case2 a hlt hle =>
      rw [grow, if_pos hlt, if_neg hle]
      exact ⟨a, .refl h, Or.inr rfl⟩
  | case3 a hlt =>
      rw [grow, if_neg hlt]
      exact ⟨a, .refl h, Or.inl ⟨rfl, Nat.le_of_not_lt hlt⟩⟩

/-! ## Resizing -/

theorem cell_cut (a : SparseArray α) (n i : Nat) : (a.cut n).cell i = if i < n then a.cell i else default := by
  simp only [cell, cut]
  cases a.root with
  | none => simp
  | some node =>
      simp only [Option.bind_some, Node.get?_keep a.cluster_pos]
      exact apply_ite (Option.getD · default) _ _ _

omit [Inhabited α] in
/-- What becomes of an array with enough levels: superfluous ones are taken off, and it is cut if it shrinks. -/
theorem resize_eq_of_grow {n : Nat} {a b : SparseArray α} (h : grow n a = .ok () b) :
    resize n a = .ok () { (if n < b.size then (b.lower n).cut n else b.lower n) with size := n } := by
  rw [resize, Operation.bind_of_ok h]
  rfl

theorem resize_of_grow {n : Nat} {a b : SparseArray α} (h : grow n a = .ok () b) :
    ∃ r, resize n a = .ok () r ∧ r.size = n ∧ r.capacity = (b.lower n).capacity ∧
      ∀ i, r.cell i = if n < b.size then ((b.lower n).cut n).cell i else (b.lower n).cell i := by
  refine ⟨_, resize_eq_of_grow h, rfl, ?_, fun i => ?_⟩
  · split <;> rfl
  · split <;> rfl

theorem cell_lower {n i : Nat} {b : SparseArray α} (hi : i < (b.lower n).capacity) :
    (b.lower n).cell i = b.cell i := by
  obtain ⟨-, -, hcells⟩ := lowered_spec b.cluster_pos (n := n) b.height b.root
  exact congrArg (Option.getD · default) (hcells i hi)

/-- The array after a resize that finds room: the first `n` cells are as before, and the rest is clean. -/
theorem resized_spec {n : Nat} {a b : SparseArray α} (hb : b.Clean) (hn : n ≤ b.capacity)
    (h : grow n a = .ok () b) :
    ∃ r, r.Clean ∧ resize n a = .ok () r ∧ r.size = n ∧ ∀ i, i < n → r.cell i = b.cell i := by
  obtain ⟨r, hok, hsize, hcap, hcell⟩ := resize_of_grow h
  obtain ⟨hle, hroom, -⟩ := lowered_spec b.cluster_pos (n := n) b.height b.root
  have hroom : n ≤ (b.lower n).capacity := hroom hn
  have hle : (b.lower n).capacity ≤ b.capacity := hle
  refine ⟨r, ⟨hsize ▸ hcap ▸ hroom, fun i hi hic => ?_⟩, hok, hsize, fun i hi => ?_⟩
  · rw [hsize] at hi
    rw [hcap] at hic
    rw [hcell]
    split
    · rw [cell_cut, if_neg (Nat.not_lt.2 hi)]
    · rw [cell_lower hic]
      exact hb.rest i (Nat.le_trans (Nat.le_of_not_lt ‹_›) hi) (Nat.lt_of_lt_of_le hic hle)
  · rw [hcell]
    split
    · rw [cell_cut, if_pos hi, cell_lower (Nat.lt_of_lt_of_le hi hroom)]
    · rw [cell_lower (Nat.lt_of_lt_of_le hi hroom)]

/-- Resizing keeps the elements that have room and fills up with the default; a failure keeps all. -/
theorem resize_spec (n : Nat) {a : SparseArray α} (h : a.Clean) :
    ∃ b, b.Clean ∧
      (resize n a = .ok () b ∧ b.toList = a.toList.take n ++ List.replicate (n - a.size) default ∨
        resize n a = .error (.capacityOverflow n) b ∧ b.toList = a.toList) := by
  obtain ⟨b, hb, ⟨hgrow, hn⟩ | herr⟩ := grow_spec n a h
  · obtain ⟨r, hclean, hok, hsize, hcells⟩ := resized_spec hb.clean hn hgrow
    refine ⟨r, hclean, Or.inl ⟨hok, ?_⟩⟩
    apply List.ext_getElem?
    intro i
    simp only [getElem?_toList, get?, List.getElem?_append, List.length_take, length_toList,
      List.getElem?_take, List.getElem?_replicate, hsize]
    by_cases hi : i < n
    · rw [if_pos hi, hcells i hi]
      by_cases his : i < a.size
      · rw [if_pos (Nat.lt_min.2 ⟨hi, his⟩), if_pos hi, if_pos his, hb.cells i his]
      · rw [if_neg (by omega), if_pos (by omega),
          hb.clean.rest i (by rw [hb.size_eq]; omega) (Nat.lt_of_lt_of_le hi hn)]
    · rw [if_neg hi, if_neg (by omega), if_neg (by omega)]
  · exact ⟨b, hb.clean, Or.inr ⟨by rw [resize, Operation.bind_of_error herr], hb.toList_eq⟩⟩

/-- One more element always finds room in a table of slots. -/
theorem resize_ok {n : Nat} (hn : n ≤ 4294967296) {a : SparseArray α} (h : a.Clean) :
    ∃ b, b.Clean ∧ resize n a = .ok () b ∧
      b.toList = a.toList.take n ++ List.replicate (n - a.size) default := by
  obtain ⟨b, hb, ⟨hok, hl⟩ | ⟨herr, -⟩⟩ := resize_spec n h
  · exact ⟨b, hb, hok, hl⟩
  · obtain ⟨c, hc⟩ := grow_ok hn a
    obtain ⟨r, hr, -⟩ := resize_of_grow hc
    rw [hr] at herr
    cases herr

/-! ## Changing a cell -/

/-- The array after a change at `i`. -/
def changed (i : Nat) (f : α → α) (a : SparseArray α) : SparseArray α :=
  { a with root := some ((a.root.getD (Node.empty a.height)).update a.cluster f a.height i) }

theorem cell_changed (a : SparseArray α) (i j : Nat) (f : α → α) :
    (a.changed i f).cell j = if j = i then f (a.cell i) else a.cell j := by
  simp only [cell, changed, Option.bind_some, Node.getD_update]
  cases a.root with
  | none => simp [Node.get?_empty]
  | some node => rfl

theorem size_changed (a : SparseArray α) (i : Nat) (f : α → α) : (a.changed i f).size = a.size := rfl

theorem update_ok {a : SparseArray α} (h : a.Clean) {i : Nat} (hi : i < a.size) (f : α → α) :
    ∃ b, b.Clean ∧ update i f a = .ok (a.cell i) b ∧ b.toList = a.toList.modify i f := by
  refine ⟨a.changed i f, ⟨h.size_le, fun j hj hjc => ?_⟩, by rw [update, if_pos hi]; rfl, ?_⟩
  · have hj : a.size ≤ j := hj
    rw [cell_changed, if_neg (by omega)]
    exact h.rest j hj hjc
  · apply List.ext_getElem?
    intro j
    simp only [getElem?_toList, get?, cell_changed, size_changed, List.getElem?_modify]
    by_cases hj : j < a.size
    · rw [if_pos hj, if_pos hj]
      by_cases hji : j = i
      · simp [hji]
      · simp [hji, Ne.symm hji]
    · rw [if_neg hj, if_neg hj]
      rfl

theorem ofCluster_ok {c : Nat} (hc : 2 ≤ c) :
    ∃ a : SparseArray α, a.Clean ∧ ofCluster c = .ok a ∧ a.toList = [] := by
  refine ⟨_, ⟨Nat.zero_le _, fun _ _ _ => rfl⟩, by rw [ofCluster, dif_pos hc], rfl⟩

end PdfStore.SparseArray
