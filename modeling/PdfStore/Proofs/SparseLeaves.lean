import Mathlib.Data.List.Range
import PdfStore.Proofs.SparseCapacity

/-!
# The stored leaves of sparse arrays

Leaf number `b` has the cells from position `b * c` on, where `c` is the cluster size. Changing a cell stores
its leaf and no other, levels added above the root or taken off leave the leaves as they are, and a cut drops
exactly the leaves that begin past it, at every depth (`SparseArray.holds`). No list of children is longer than
the cluster size (`SparseArray.Fitting`), so counting the leaves of the tree counts the numbers (`Fitting.leaves_eq`).
-/

namespace PdfStore.SparseArray

variable {α : Type}

namespace Node

variable {c : Nat}

/-- The leaf with a number is stored below a node. -/
def holds (c : Nat) : (h : Nat) → Nat → Node α h → Bool
  | 0, _, _ => true
  | h + 1, b, node => (node.child? (b / Nat.pow c h)).any (holds c h (b % Nat.pow c h))

def children {h : Nat} (node : Node α (h + 1)) : List (Option (Node α h)) := node

/-- No list of children is longer than the cluster size. -/
def Fits (c : Nat) : (h : Nat) → Node α h → Prop
  | 0, _ => True
  | h + 1, node => node.children.length ≤ c ∧ ∀ p child, node.child? p = some child → Fits c h child

/-! ## Levels and cuts -/

theorem holds_above {h : Nat} (hc : 0 < c) (b : Nat) (node : Node α h) :
    holds c (h + 1) b node.above = (decide (b < Nat.pow c h) && holds c h b node) := by
  rw [holds]
  by_cases hb : b < Nat.pow c h
  · rw [Nat.div_eq_of_lt hb, Nat.mod_eq_of_lt hb, decide_eq_true hb, Bool.true_and]
    rfl
  · have hplace : 1 ≤ b / Nat.pow c h := (Nat.one_le_div_iff (Nat.pow_pos hc)).2 (Nat.le_of_not_lt hb)
    have hnone : node.above.child? (b / Nat.pow c h) = none := by
      rw [child?, above, List.getElem?_eq_none (by simpa using hplace)]
      rfl
    rw [hnone, decide_eq_false hb]
    rfl

theorem any_child?_zero {h b : Nat} (hb : b < Nat.pow c h) (node : Node α (h + 1)) :
    (node.child? 0).any (holds c h b) = holds c (h + 1) b node := by
  rw [holds, Nat.div_eq_of_lt hb, Nat.mod_eq_of_lt hb]

/-- Where a leaf begins, counted in children of the root and then below the child. -/
theorem place_of_leaf (c h b : Nat) :
    b * c = b / Nat.pow c h * span c h + b % Nat.pow c h * c := by
  have hspan : span c h = Nat.pow c h * c := rfl
  conv_lhs => rw [← Nat.div_add_mod b (Nat.pow c h)]
  rw [hspan, Nat.add_mul, Nat.mul_comm (Nat.pow c h), Nat.mul_assoc]

/-- A cut keeps the leaves that begin before it. -/
theorem any_keep (hc : 0 < c) {h b : Nat} (n : Nat) (hb : b < Nat.pow c h) (node : Node α h) :
    (keep c h n node).any (holds c h b) = (decide (b * c < n) && holds c h b node) := by
  induction h generalizing b n with
  | zero =>
      have hzero : b = 0 := Nat.lt_one_iff.1 hb
      subst hzero
      cases n with
      | zero => rfl
      | succ n =>
          rw [Nat.zero_mul]
          rfl
  | succ h ih =>
      cases n with
      | zero => simp [keep_zero]
      | succ n =>
          have hw : 0 < Nat.pow c h := Nat.pow_pos hc
          obtain ⟨kept, hkept, hchild⟩ := child?_keep (c := c) (n := n) node
          rw [hkept, Option.any_some, holds, hchild]
          -- The child of the leaf stands before that of the cut, is the same one, or stands behind it.
          have hbpos := place_of_leaf c h b
          have hn := Nat.div_add_mod n (span c h)
          have hnm := Nat.mod_lt n (span_pos hc h)
          have hbm : b % Nat.pow c h * c < span c h := Nat.mul_lt_mul_of_pos_right (Nat.mod_lt b hw) hc
          rcases Nat.lt_trichotomy (b / Nat.pow c h) (n / span c h) with hlt | heq | hgt
          · have hle := Nat.mul_le_mul_right (span c h) (Nat.succ_le_of_lt hlt)
            rw [Nat.succ_mul, Nat.mul_comm (n / span c h)] at hle
            rw [if_pos hlt, decide_eq_true (by omega), Bool.true_and, holds]
          · rw [if_neg (by omega), if_pos heq]
            have hiff : b * c < n + 1 ↔ b % Nat.pow c h * c < n + 1 - n / span c h * span c h := by
              rw [hbpos, heq, Nat.mul_comm (n / span c h)]
              omega
            rw [decide_eq_decide.2 hiff, holds]
            cases node.child? (b / Nat.pow c h) with
            | none => simp
            | some child => exact ih _ (Nat.mod_lt b hw) child
          · have hle := Nat.mul_le_mul_right (span c h) (Nat.succ_le_of_lt hgt)
            rw [Nat.succ_mul, Nat.mul_comm (n / span c h)] at hle
            rw [if_neg (by omega), if_neg (by omega), decide_eq_false (by omega)]
            rfl

theorem fits_empty (c h : Nat) : Fits c h (empty h : Node α h) := by
  cases h with
  | zero => trivial
  | succ h => exact ⟨Nat.zero_le c, fun p child hchild => by cases hchild⟩

theorem fits_above {h : Nat} (hc : 0 < c) {node : Node α h} (hfits : Fits c h node) : Fits c (h + 1) node.above := by
  refine ⟨hc, fun p child hchild => ?_⟩
  cases p with
  | zero =>
      cases hchild
      exact hfits
  | succ p => cases hchild

theorem length_children_keep {h n : Nat} {node kept : Node α (h + 1)}
    (hkeep : keep c (h + 1) (n + 1) node = some kept) : kept.children.length ≤ node.children.length := by
  have hkept : kept.children = (node.children.take (n / span c h + 1)).modify (n / span c h) fun child =>
      child.bind (keep c h (n + 1 - n / span c h * span c h)) := (Option.some.inj hkeep).symm
  rw [hkept, List.length_modify, List.length_take]
  exact Nat.min_le_right _ _

theorem fits_keep {h n : Nat} {node kept : Node α h} (hfits : Fits c h node) (hkeep : keep c h n node = some kept) :
    Fits c h kept := by
  induction h generalizing n with
  | zero => trivial
  | succ h ih =>
      cases n with
      | zero =>
          rw [keep_zero] at hkeep
          cases hkeep
      | succ n =>
          obtain ⟨kept', hkept, hchild⟩ := child?_keep (c := c) (n := n) node
          obtain rfl : kept' = kept := Option.some.inj (hkept.symm.trans hkeep)
          refine ⟨Nat.le_trans (length_children_keep hkept) hfits.1, fun p child hp => ?_⟩
          rw [hchild] at hp
          split at hp
          · exact hfits.2 p child hp
          · split at hp
            · obtain ⟨whole, hwhole, hcut⟩ := Option.bind_eq_some_iff.1 hp
              exact ih (hfits.2 p whole hwhole) hcut
            · cases hp

/-! ## Changing a cell -/

theorem child?_getD_empty {h : Nat} (slot : Option (Node α (h + 1))) (p : Nat) :
    (slot.getD (empty (h + 1))).child? p = slot.bind (child? p) := by
  cases slot with
  | none => rfl
  | some node => rfl

variable [Inhabited α]

/-- Changing a cell stores its leaf, and the nodes on the way to it, and no other leaf. -/
theorem holds_update (hc : 0 < c) (f : α → α) {h i b : Nat} (hi : i < span c h) (hb : b < Nat.pow c h)
    (slot : Option (Node α h)) :
    holds c h b (update c f h i (slot.getD (empty h))) = (decide (b = i / c) || slot.any (holds c h b)) := by
  induction h generalizing i b with
  | zero =>
      have hzero : b = i / c := by
        rw [Nat.div_eq_of_lt (span_zero c ▸ hi)]
        exact Nat.lt_one_iff.1 hb
      rw [decide_eq_true hzero, Bool.true_or, holds]
  | succ h ih =>
      have hany : slot.any (holds c (h + 1) b) =
          ((slot.getD (empty (h + 1))).child? (b / Nat.pow c h)).any (holds c h (b % Nat.pow c h)) := by
        rw [child?_getD_empty]
        cases slot <;> rfl
      have hplace : i / span c h = i / c / Nat.pow c h := by
        rw [Nat.div_div_eq_div_mul, Nat.mul_comm]
        rfl
      have hrest : i % span c h / c = i / c % Nat.pow c h := by
        have hspan : span c h = c * Nat.pow c h := Nat.mul_comm _ _
        rw [hspan, Nat.mod_mul_right_div_self]
      rw [hany, holds, child?_update]
      by_cases hp : b / Nat.pow c h = i / span c h
      · rw [if_pos hp, Option.any_some, ih (Nat.mod_lt i (span_pos hc h)) (Nat.mod_lt b (Nat.pow_pos hc)), hrest]
        have hiff : b % Nat.pow c h = i / c % Nat.pow c h ↔ b = i / c := by
          constructor
          · intro hmod
            rw [← Nat.div_add_mod b (Nat.pow c h), ← Nat.div_add_mod (i / c) (Nat.pow c h), hmod, hp, hplace]
          · exact fun h => h ▸ rfl
        rw [decide_eq_decide.2 hiff]
      · have hne : b ≠ i / c := fun h => hp (by rw [h, hplace])
        rw [if_neg hp, decide_eq_false hne, Bool.false_or]

theorem fits_update (f : α → α) {h i : Nat} (hi : i < span c h) {node : Node α h} (hfits : Fits c h node) (hc : 0 < c) :
    Fits c h (update c f h i node) := by
  induction h generalizing i with
  | zero => trivial
  | succ h ih =>
      refine ⟨?_, fun p child hp => ?_⟩
      · have hplace := place_lt hi
        have hlength := hfits.1
        change ((node.children.rightpad (i / span c h + 1) none).modify _ _).length ≤ c
        rw [List.length_modify, List.rightpad, List.length_append, List.length_replicate]
        omega
      · rw [child?_update] at hp
        split at hp
        · cases hp
          refine ih (Nat.mod_lt i (span_pos hc h)) ?_
          cases hslot : node.child? p with
          | none => exact fits_empty c h
          | some child => exact hfits.2 p child hslot
        · exact hfits.2 p child hp

end Node

/-! ## Counting leaves -/

namespace Node

variable {c : Nat}

theorem total_append (l r : List Nat) : total (l ++ r) = total l + total r := by
  induction l with
  | nil => exact (Nat.zero_add _).symm
  | cons n l ih => rw [List.cons_append, total, total, ih, Nat.add_assoc]

/-- The places past the end of a list of children count nothing. -/
theorem total_map_places {β : Type} {g : Option β → Nat} (hg : g none = 0) {l : List (Option β)} {n : Nat}
    (hl : l.length ≤ n) : total (l.map g) = total ((List.range n).map fun p => g l[p]?.join) := by
  induction l generalizing n with
  | nil =>
      induction n with
      | zero => rfl
      | succ n ih =>
          rw [List.range_succ, List.map_append, total_append, ← ih (Nat.zero_le n)]
          simp [total, hg]
  | cons o l ih =>
      cases n with
      | zero => exact absurd hl (Nat.not_succ_le_zero _)
      | succ n =>
          rw [List.range_succ_eq_map, List.map_cons, List.map_cons, total, total, ih (Nat.le_of_succ_le_succ hl),
            List.map_map]
          rfl

/-- Numbers below a product are counted part by part. -/
theorem countP_range_mul (p : Nat → Bool) (w n : Nat) :
    (List.range (w * n)).countP p =
      total ((List.range n).map fun q => (List.range w).countP fun r => p (w * q + r)) := by
  induction n with
  | zero => rfl
  | succ n ih =>
      rw [Nat.mul_succ, List.range_add, List.countP_append, ih, List.range_succ, List.map_append, total_append,
        List.countP_map]
      simp [total, Function.comp_def]

theorem leaves_succ {h : Nat} (node : Node α (h + 1)) :
    leaves (h + 1) node = total (node.children.map fun slot => slot.elim 0 (leaves h)) := by
  refine congrArg total (List.map_congr_left (l := node.children) fun slot _ => ?_)
  cases slot <;> rfl

/-- The leaves below a node are as many as their numbers. -/
theorem leaves_eq_countP (hc : 0 < c) {h : Nat} {node : Node α h} (hfits : Fits c h node) :
    leaves h node = (List.range (Nat.pow c h)).countP fun b => holds c h b node := by
  induction h with
  | zero => rfl
  | succ h ih =>
      have hw : 0 < Nat.pow c h := Nat.pow_pos hc
      let count (slot : Option (Node α h)) : Nat := (List.range (Nat.pow c h)).countP fun b => slot.any (holds c h b)
      have hcount : count none = 0 := by simp [count]
      have hleaves : leaves (h + 1) node = total (node.children.map count) := by
        rw [leaves_succ]
        refine congrArg total (List.map_congr_left fun slot hslot => ?_)
        cases slot with
        | none => exact hcount.symm
        | some child =>
            obtain ⟨p, hp⟩ := List.mem_iff_getElem?.1 hslot
            have hchild : node.child? p = some child := congrArg Option.join hp
            exact ih (hfits.2 p child hchild)
      rw [hleaves, total_map_places hcount hfits.1]
      have hpow : Nat.pow c (h + 1) = Nat.pow c h * c := rfl
      rw [hpow, countP_range_mul]
      congr 1
      refine List.map_congr_left fun q _ => List.countP_congr fun r hr => ?_
      rw [holds, Nat.mul_add_div hw, Nat.div_eq_of_lt (List.mem_range.1 hr), Nat.add_zero, Nat.mul_add_mod,
        Nat.mod_eq_of_lt (List.mem_range.1 hr)]
      rfl

end Node

namespace Tree

mutual

/-- The number of leaves of a tree. -/
def leaves : Tree α → Nat
  | .leaf _ => 1
  | .branch children => leavesIn children

def leavesIn : List (Option (Tree α)) → Nat
  | [] => 0
  | none :: rest => leavesIn rest
  | some t :: rest => leaves t + leavesIn rest

end

theorem leavesIn_eq_total (children : List (Option (Tree α))) :
    leavesIn children = Node.total (children.map fun slot => slot.elim 0 leaves) := by
  induction children with
  | nil => rfl
  | cons slot rest ih =>
      cases slot with
      | none => rw [leavesIn, List.map_cons, Node.total, ih, Option.elim_none, Nat.zero_add]
      | some t => rw [leavesIn, List.map_cons, Node.total, ih, Option.elim_some]

end Tree

def Stored.leaves (s : Stored α) : Nat :=
  match s.root with
  | none => 0
  | some t => t.leaves

/-- A node with all its places has no other leaves. -/
theorem Node.leaves_tree [Inhabited α] {c h : Nat} {node : Node α h} (hfits : Fits c h node) :
    (node.tree c).leaves = leaves h node := by
  induction h with
  | zero => rfl
  | succ h ih =>
      rw [leaves_succ, total_map_places rfl hfits.1, tree, Tree.leaves, Tree.leavesIn_eq_total, List.map_map]
      refine congrArg total (List.map_congr_left fun p _ => ?_)
      have hplace : node.children[p]?.join = node.child? p := rfl
      rw [hplace]
      cases hslot : node.child? p with
      | none => simp [hslot]
      | some child => simpa [hslot] using ih (hfits.2 p child hslot)

/-! ## Leaves of arrays -/

/-- The leaf with a number is stored. -/
def holds (a : SparseArray α) (b : Nat) : Bool := a.root.any (Node.holds a.cluster a.height b)

/-- No list of children of a node is too long. -/
def Fitting (a : SparseArray α) : Prop := ∀ node, a.root = some node → Node.Fits a.cluster a.height node

/-- The number of leaves there is room for. -/
def places (a : SparseArray α) : Nat := Nat.pow a.cluster a.height

theorem capacity_eq_places (a : SparseArray α) : a.capacity = a.places * a.cluster := rfl

theorem lt_places_iff {a : SparseArray α} {b : Nat} : b < a.places ↔ b * a.cluster < a.capacity := by
  rw [capacity_eq_places]
  exact (Nat.mul_lt_mul_right a.cluster_pos).symm

/-- The stored leaves are as many as their numbers. -/
theorem Fitting.leaves_eq {a : SparseArray α} (h : a.Fitting) : a.leaves = (List.range a.places).countP a.holds := by
  obtain ⟨c, hc, size, height, root⟩ := a
  cases root with
  | none => exact (List.countP_eq_zero.2 fun _ _ => Bool.false_ne_true).symm
  | some node => exact Node.leaves_eq_countP (Nat.zero_lt_of_lt hc) (h node rfl)

theorem Fitting.leaves_stored [Inhabited α] {a : SparseArray α} (h : a.Fitting) : a.stored.leaves = a.leaves := by
  obtain ⟨c, hc, size, height, root⟩ := a
  cases root with
  | none => rfl
  | some node => exact Node.leaves_tree (h node rfl)

/-! ## Resizing -/

theorem holds_raise (a : SparseArray α) (b : Nat) : a.raise.holds b = (decide (b < a.places) && a.holds b) := by
  obtain ⟨c, hc, size, height, root⟩ := a
  cases root with
  | none => simp [raise, holds]
  | some node => exact Node.holds_above (Nat.zero_lt_of_lt hc) b node

theorem Fitting.raise {a : SparseArray α} (h : a.Fitting) : a.raise.Fitting := by
  intro node hnode
  obtain ⟨below, hbelow, rfl⟩ := Option.map_eq_some_iff.1 hnode
  exact Node.fits_above a.cluster_pos (h below hbelow)

/-- Levels that are taken off have no leaves but those of the first child. -/
theorem lowered_leaves {c n : Nat} (hc : 0 < c) (h : Nat) (root : Option (Node α h)) :
    (lowered c n h root).1 ≤ h ∧
      (∀ b, b < Nat.pow c (lowered c n h root).1 →
        (lowered c n h root).2.any (Node.holds c (lowered c n h root).1 b) = root.any (Node.holds c h b)) ∧
      ((∀ node, root = some node → Node.Fits c h node) →
        ∀ node, (lowered c n h root).2 = some node → Node.Fits c (lowered c n h root).1 node) := by
  induction h with
  | zero => exact ⟨Nat.le_refl 0, fun _ _ => rfl, id⟩
  | succ h ih =>
      rw [lowered]
      by_cases hn : n ≤ Node.span c h
      · rw [if_pos hn]
        obtain ⟨hle, hholds, hfits⟩ := ih (root.bind (Node.child? 0))
        refine ⟨Nat.le_succ_of_le hle, fun b hb => ?_, fun hroot => hfits fun child hchild => ?_⟩
        · rw [hholds b hb]
          cases root with
          | none => rfl
          | some node => exact Node.any_child?_zero (Nat.lt_of_lt_of_le hb (Nat.pow_le_pow_right hc hle)) node
        · obtain ⟨node, hnode, hchild⟩ := Option.bind_eq_some_iff.1 hchild
          exact (hroot node hnode).2 0 child hchild
      · rw [if_neg hn]
        exact ⟨Nat.le_refl _, fun _ _ => rfl, id⟩

theorem holds_lower {n b : Nat} {a : SparseArray α} (hb : b < (a.lower n).places) : (a.lower n).holds b = a.holds b :=
  (lowered_leaves a.cluster_pos a.height a.root).2.1 b hb

theorem places_lower_le (n : Nat) (a : SparseArray α) : (a.lower n).places ≤ a.places :=
  Nat.pow_le_pow_right a.cluster_pos (lowered_leaves a.cluster_pos a.height a.root).1

theorem Fitting.lower {a : SparseArray α} (h : a.Fitting) (n : Nat) : (a.lower n).Fitting :=
  (lowered_leaves a.cluster_pos a.height a.root).2.2 h

/-- A cut keeps the leaves that begin before it. -/
theorem holds_cut {n b : Nat} {a : SparseArray α} (hb : b < a.places) :
    (a.cut n).holds b = (decide (b * a.cluster < n) && a.holds b) := by
  obtain ⟨c, hc, size, height, root⟩ := a
  cases root with
  | none => simp [cut, holds]
  | some node => exact Node.any_keep (Nat.zero_lt_of_lt hc) n hb node

theorem Fitting.cut {a : SparseArray α} (h : a.Fitting) (n : Nat) : (a.cut n).Fitting := by
  intro kept hkept
  obtain ⟨node, hnode, hkeep⟩ := Option.bind_eq_some_iff.1 hkept
  exact Node.fits_keep (h node hnode) hkeep

/-! ## Changing a cell -/

variable [Inhabited α]

/-- Changing a cell stores its leaf. -/
theorem holds_changed {i b : Nat} {a : SparseArray α} (f : α → α) (hi : i < a.capacity) (hb : b < a.places) :
    (a.changed i f).holds b = (decide (b = i / a.cluster) || a.holds b) :=
  Node.holds_update a.cluster_pos f hi hb a.root

theorem Fitting.changed {i : Nat} {a : SparseArray α} (h : a.Fitting) (f : α → α) (hi : i < a.capacity) :
    (a.changed i f).Fitting := by
  intro node hnode
  cases hnode
  refine Node.fits_update f hi ?_ a.cluster_pos
  cases hroot : a.root with
  | none => exact Node.fits_empty a.cluster a.height
  | some node => exact h node hroot

end PdfStore.SparseArray
