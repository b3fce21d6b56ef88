import PdfStore.Proofs.SparseContents

/-!
# The shape of sparse arrays

In memory the nodes of all heights are of one type, and a node has a place for each of its cells or
children. `Stored` is an array in that form; what it does with a node depends on the node it meets and on
a capacity that it divides on the way down (`Fault` if the two do not agree). An array without missing
places (`SparseArray.stored`) keeps that form under every operation, and no fault occurs.
-/

namespace PdfStore.SparseArray

/-- A node of any height. -/
inductive Tree (α : Type)
  | leaf (cells : List α)
  | branch (children : List (Option (Tree α)))

/-- What can go wrong: a request is refused, a node is not of the height that the capacity tells, or a
place does not exist. -/
inductive Fault
  | refused (e : SparseError)
  | shapeMismatch (capacity : Nat)
  | outOfBounds
deriving DecidableEq, Repr

variable {α : Type}

namespace Tree

/-- The first child of a root. -/
def first (capacity : Nat) : Option (Tree α) → Except Fault (Option (Tree α))
  | none => .ok none
  | some (.leaf _) => .error (.shapeMismatch capacity)
  | some (.branch children) =>
    match children[0]? with
    | some child => .ok child
    | none => .error .outOfBounds

variable [Inhabited α] {c : Nat}

/-- Changes the cell at an offset below a place, adding missing nodes, and answers what was there. -/
def locate (hc : 2 ≤ c) (f : α → α) (capacity offset : Nat) (slot : Option (Tree α)) :
    Except Fault (α × Tree α) :=
  if capacity = c then
    match slot.getD (.leaf (List.replicate c default)) with
    | .leaf cells =>
      match cells[offset]? with
      | some v => .ok (v, .leaf (cells.set offset (f v)))
      | none => .error (.shapeMismatch capacity)
    | .branch _ => .error (.shapeMismatch capacity)
  else
    match slot.getD (.branch (List.replicate c none)) with
    | .leaf _ => .error (.shapeMismatch capacity)
    | .branch children =>
      if _h : 0 < capacity / c then
        match children[offset / (capacity / c)]? with
        | some child =>
          (locate hc f (capacity / c) (offset % (capacity / c)) child).map fun p =>
            (p.1, .branch (children.set (offset / (capacity / c)) (some p.2)))
        | none => .error .outOfBounds
      else .error .outOfBounds
termination_by capacity
decreasing_by exact Nat.div_lt_self (Nat.lt_of_lt_of_le ‹_› (Nat.div_le_self _ _)) hc

/-- Puts everything below a place from position `keep` on back at the default. -/
def release (hc : 2 ≤ c) (capacity keep : Nat) (slot : Option (Tree α)) : Except Fault (Option (Tree α)) :=
  if keep = 0 then .ok none
  else
    match slot with
    | none => .ok none
    | some (.leaf cells) =>
      .ok (some (.leaf (cells.take keep ++ List.replicate (cells.length - keep) default)))
    | some (.branch children) =>
      if capacity = c then .error (.shapeMismatch capacity)
      else if _h : 0 < capacity / c then
        let last := (keep - 1) / (capacity / c)
        match children[last]? with
        | some child =>
          (release hc (capacity / c) (keep - last * (capacity / c)) child).map fun child =>
            some (.branch ((children.set last child).take (last + 1) ++
              List.replicate (children.length - (last + 1)) none))
        | none => .error .outOfBounds
      else .error .outOfBounds
termination_by capacity
decreasing_by exact Nat.div_lt_self (Nat.lt_of_lt_of_le ‹_› (Nat.div_le_self _ _)) hc

/-- The cell at an offset; the default where a node is missing. -/
def read (hc : 2 ≤ c) (capacity offset : Nat) : Tree α → Except Fault α
  | .leaf cells => .ok (cells[offset]?.getD default)
  | .branch children =>
    if _h : 0 < capacity / c then
      match children[offset / (capacity / c)]?.join with
      | some child => read hc (capacity / c) (offset % (capacity / c)) child
      | none => .ok default
    else .error .outOfBounds
termination_by capacity
decreasing_by exact Nat.div_lt_self (Nat.lt_of_lt_of_le ‹_› (Nat.div_le_self _ _)) hc

end Tree

structure Stored (α : Type) where
  cluster : Nat
  two_le_cluster : 2 ≤ cluster
  capacity : Nat
  capacity_pos : 0 < capacity
  size : Nat
  root : Option (Tree α)

namespace Stored

def empty (cluster : Nat) (h : 2 ≤ cluster) : Stored α :=
  ⟨cluster, h, cluster, Nat.lt_of_lt_of_le (by decide) h, 0, none⟩

/-- A level above the root. -/
def widen (s : Stored α) : Stored α :=
  { s with
    capacity := s.capacity * s.cluster
    capacity_pos := Nat.mul_pos s.capacity_pos (Nat.lt_of_lt_of_le (by decide) s.two_le_cluster)
    root := s.root.map fun t => .branch ((List.replicate s.cluster none).set 0 (some t)) }

theorem capacity_lt_capacity_widen (s : Stored α) : s.capacity < s.widen.capacity :=
  (Nat.lt_mul_iff_one_lt_right s.capacity_pos).2 s.two_le_cluster

def grow (n : Nat) : Operation Fault (Stored α) Unit := fun s =>
  if s.capacity < n then
    if s.capacity * s.cluster ≤ maxCapacity then grow n s.widen
    else .error (.refused (.capacityOverflow n)) s
  else .ok () s
termination_by s => n - s.capacity
decreasing_by
  have := capacity_lt_capacity_widen ‹Stored α›
  omega

def narrow (n : Nat) : Operation Fault (Stored α) Unit := fun s =>
  if h : s.cluster < s.capacity ∧ n ≤ s.capacity / s.cluster then
    match Tree.first s.capacity s.root with
    | .ok root =>
      narrow n { s with
        capacity := s.capacity / s.cluster
        capacity_pos := Nat.div_pos (Nat.le_of_lt h.1) (Nat.lt_of_lt_of_le (by decide) s.two_le_cluster)
        root := root }
    | .error e => .error e s
  else .ok () s
termination_by s => s.capacity
decreasing_by
  apply Nat.div_lt_self
  · exact capacity_pos _
  · exact two_le_cluster _

variable [Inhabited α]

def cut (n : Nat) : Operation Fault (Stored α) Unit := fun s =>
  if n < s.size then
    match Tree.release s.two_le_cluster s.capacity n s.root with
    | .ok root => .ok () { s with root := root }
    | .error e => .error e s
  else .ok () s

def resize (n : Nat) : Operation Fault (Stored α) Unit := do
  grow n
  narrow n
  cut n
  modify fun s => { s with size := n }

def update (i : Nat) (f : α → α) : Operation Fault (Stored α) α := fun s =>
  if i < s.size then
    match Tree.locate s.two_le_cluster f s.capacity i s.root with
    | .ok (v, t) => .ok v { s with root := some t }
    | .error e => .error e s
  else .error (.refused (.indexOutOfRange i s.size)) s

def get (s : Stored α) (i : Nat) : Except Fault (Option α) :=
  if i < s.size then
    match s.root with
    | none => .ok (some default)
    | some t => (t.read s.two_le_cluster s.capacity i).map some
  else .ok none

end Stored

/-! ## Arrays in stored form -/

variable [Inhabited α]

/-- A node with all its places. -/
def Node.tree (c : Nat) : (h : Nat) → Node α h → Tree α
  | 0, cells => .leaf ((List.range c).map fun i => (Node.get? c 0 i cells).getD default)
  | h + 1, node => .branch ((List.range c).map fun i => (node.child? i).map (tree c h))

def stored (a : SparseArray α) : Stored α :=
  ⟨a.cluster, a.two_le_cluster, a.capacity, Nat.lt_of_lt_of_le a.cluster_pos a.cluster_le_capacity, a.size,
    a.root.map (Node.tree a.cluster a.height)⟩

namespace Node

variable {c : Nat}

theorem span_zero (c : Nat) : span c 0 = c := Nat.pow_one c

theorem le_span (c h : Nat) : c ≤ span c h := Nat.le_self_pow (Nat.succ_ne_zero h) c

theorem span_succ_ne (hc : 2 ≤ c) (h : Nat) : span c (h + 1) ≠ c := by
  have hle := Nat.mul_le_mul_right c (Nat.le_trans hc (le_span c h))
  rw [span_succ]
  omega

theorem span_succ_div (hc : 2 ≤ c) (h : Nat) : span c (h + 1) / c = span c h := by
  rw [span_succ]
  exact Nat.mul_div_cancel _ (by omega)

theorem place_lt {h i : Nat} (hi : i < span c (h + 1)) : i / span c h < c :=
  Nat.div_lt_of_lt_mul hi

/-! ## Nodes with all their places -/

theorem map_const_range {β : Type} (c : Nat) (b : β) : (List.range c).map (fun _ => b) = List.replicate c b := by
  rw [List.map_const', List.length_range]

theorem getD_tree_zero (c : Nat) (slot : Option (Node α 0)) :
    (slot.map (tree c 0)).getD (.leaf (List.replicate c default)) = tree c 0 (slot.getD (empty 0)) := by
  cases slot with
  | none =>
      have hmissing : (fun i => (get? c 0 i (empty 0 : Node α 0)).getD default) = fun _ => default := by
        funext i
        rw [get?_empty, Option.getD_none]
      rw [Option.getD_none, tree, hmissing, map_const_range]
      rfl
  | some node => rfl

theorem getD_tree_succ (c h : Nat) (slot : Option (Node α (h + 1))) :
    (slot.map (tree c (h + 1))).getD (.branch (List.replicate c none)) =
      tree c (h + 1) (slot.getD (empty (h + 1))) := by
  cases slot with
  | none =>
      have hmissing : (fun i => ((empty (h + 1) : Node α (h + 1)).child? i).map (tree c h)) = fun _ => none := by
        funext i
        rfl
      rw [Option.getD_none, tree, hmissing, map_const_range]
      rfl
  | some node => rfl

/-- A missing node reads like an empty one. -/
theorem getD_get?_empty (c h i : Nat) (slot : Option (Node α h)) :
    (slot.bind (get? c h i)).getD default = (get? c h i (slot.getD (empty h))).getD default := by
  cases slot with
  | none => simp [get?_empty]
  | some node => rfl

/-- Setting one place of a list of all places. -/
theorem set_map_range {β : Type} {g g' : Nat → β} {i : Nat} (h : ∀ j, j ≠ i → g' j = g j) :
    ((List.range c).map g).set i (g' i) = (List.range c).map g' := by
  apply List.ext_getElem?
  intro j
  rw [List.getElem?_set, List.length_map, List.length_range, List.getElem?_map, List.getElem?_map]
  by_cases hji : i = j
  · subst hji
    by_cases hj : i < c <;> simp [hj]
  · rw [if_neg hji]
    by_cases hj : j < c
    · simp [List.getElem?_range hj, h j (Ne.symm hji)]
    · simp [hj]

theorem child?_update {h : Nat} (f : α → α) (i p : Nat) (node : Node α (h + 1)) :
    (update c f (h + 1) i node).child? p =
      if p = i / span c h then some (update c f h (i % span c h) ((node.child? p).getD (empty h)))
      else node.child? p := by
  change List (Option (Node α h)) at node
  change (((node.rightpad (i / span c h + 1) none).modify (i / span c h) fun child =>
      some (update c f h (i % span c h) (child.getD (empty h))))[p]?.join) =
    if p = i / span c h then some (update c f h (i % span c h) ((node[p]?.join).getD (empty h)))
    else node[p]?.join
  have join_eq (o : Option (Option (Node α h))) : o.join = o.getD none := by cases o <;> rfl
  have hpad : (node.rightpad (i / span c h + 1) none)[p]?.join = node[p]?.join := by
    rw [join_eq, join_eq, getD_rightpad]
  rw [List.getElem?_modify]
  by_cases hp : p = i / span c h
  · subst hp
    rw [List.getElem?_eq_getElem (length_rightpad_gt none node _)] at hpad ⊢
    rw [Option.join_some] at hpad
    simp only [Option.map_eq_map, Option.map_some, Option.join_some, ↓reduceIte, hpad]
  · simp only [if_neg (Ne.symm hp), if_neg hp, Option.map_eq_map, Option.map_id', hpad]

theorem locate_tree (hc : 2 ≤ c) (f : α → α) {h i : Nat} (hi : i < span c h) (slot : Option (Node α h)) :
    Tree.locate hc f (span c h) i (slot.map (tree c h)) =
      .ok ((slot.bind (get? c h i)).getD default, tree c h (update c f h i (slot.getD (empty h)))) := by
  induction h generalizing i with
  | zero =>
      rw [Tree.locate, if_pos (span_zero c), getD_tree_zero, getD_get?_empty]
      generalize slot.getD (empty 0) = node
      have hset := @set_map_range c α (fun j => (get? c 0 j node).getD default)
        (fun j => (get? c 0 j (update c f 0 i node)).getD default) i fun j hj => by
          rw [getD_update, if_neg hj]
      have hv : (get? c 0 i (update c f 0 i node)).getD default = f ((get? c 0 i node).getD default) := by
        rw [getD_update, if_pos rfl]
      simp only [tree, List.getElem?_map, List.getElem?_range (span_zero c ▸ hi), Option.map_some, ← hv, hset]
  | succ h ih =>
      rw [Tree.locate, if_neg (span_succ_ne hc h), getD_tree_succ, getD_get?_empty]
      generalize slot.getD (empty (h + 1)) = node
      have hpos := span_pos (by omega : 0 < c) h
      have hchild := ih (Nat.mod_lt i hpos) (node.child? (i / span c h))
      have hset := @set_map_range c _ (fun p => (node.child? p).map (tree c h))
        (fun p => ((update c f (h + 1) i node).child? p).map (tree c h)) (i / span c h) fun p hp => by
          rw [child?_update, if_neg hp]
      rw [child?_update, if_pos rfl] at hset
      simp only [tree, span_succ_div hc, hpos, ↓reduceDIte, List.getElem?_map,
        List.getElem?_range (place_lt hi), Option.map_some, hchild]
      rw [← hset]
      rfl

/-- The first places of a list of all places, with one value for the rest. -/
theorem take_map_range {β : Type} {g g' : Nat → β} {d : β} {n : Nat} (h : ∀ j, j < n → g' j = g j)
    (hd : ∀ j, n ≤ j → g' j = d) :
    ((List.range c).map g).take n ++ List.replicate (c - n) d = (List.range c).map g' := by
  apply List.ext_getElem?
  intro j
  rw [List.getElem?_append, List.length_take, List.length_map, List.length_range, List.getElem?_take,
    List.getElem?_replicate, List.getElem?_map, List.getElem?_map]
  by_cases hj : j < c
  · by_cases hn : j < n
    · rw [if_pos (Nat.lt_min.2 ⟨hn, hj⟩), if_pos hn, List.getElem?_range hj, Option.map_some, Option.map_some,
        h j hn]
    · rw [if_neg (by omega), if_pos (by omega), List.getElem?_range hj, Option.map_some, hd j (by omega)]
  · rw [if_neg (by omega), if_neg (by omega)]
    simp [hj]

/-- One place is set, and the places after it are cleared. -/
theorem take_set_map_range {β : Type} {g g' : Nat → β} {d : β} {i : Nat} (h : ∀ j, j < i → g' j = g j)
    (hd : ∀ j, i < j → g' j = d) :
    (((List.range c).map g).set i (g' i)).take (i + 1) ++ List.replicate (c - (i + 1)) d =
      (List.range c).map g' := by
  have hset : ((List.range c).map g).set i (g' i) = (List.range c).map fun j => if j = i then g' j else g j := by
    have := @set_map_range c β g (fun j => if j = i then g' j else g j) i fun j hj => if_neg hj
    rwa [if_pos rfl] at this
  rw [hset]
  refine take_map_range (fun j hj => ?_) hd
  split
  · rfl
  · exact h j (by omega)

omit [Inhabited α] in
theorem child?_keep {h n : Nat} (node : Node α (h + 1)) :
    ∃ kept : Node α (h + 1), keep c (h + 1) (n + 1) node = some kept ∧
      ∀ p, kept.child? p = if p < n / span c h then node.child? p
        else if p = n / span c h then (node.child? p).bind (keep c h (n + 1 - n / span c h * span c h))
        else none := by
  refine ⟨_, rfl, fun p => ?_⟩
  change List (Option (Node α h)) at node
  change (((node.take (n / span c h + 1)).modify (n / span c h) fun child =>
      child.bind (keep c h (n + 1 - n / span c h * span c h)))[p]?.join) = if p < n / span c h then node[p]?.join
    else if p = n / span c h then (node[p]?.join).bind (keep c h (n + 1 - n / span c h * span c h)) else none
  rw [List.getElem?_modify, List.getElem?_take]
  rcases Nat.lt_trichotomy p (n / span c h) with hlt | rfl | hgt
  · rw [if_pos (by omega), if_pos hlt]
    simp only [if_neg (Nat.ne_of_gt hlt), Option.map_eq_map, Option.map_id']
  · rw [if_pos (by omega), if_neg (Nat.lt_irrefl _), if_pos rfl]
    simp only [Option.map_eq_map, ↓reduceIte]
    cases node[n / span c h]? with
    | none => rfl
    | some child => rfl
  · rw [if_neg (by omega), if_neg (by omega), if_neg (by omega)]
    rfl

theorem release_zero (hc : 2 ≤ c) (capacity : Nat) (slot : Option (Tree α)) :
    Tree.release hc capacity 0 slot = .ok none := by
  rw [Tree.release.eq_def, if_pos rfl]

theorem release_none (hc : 2 ≤ c) (capacity n : Nat) : Tree.release hc capacity n (none : Option (Tree α)) = .ok none := by
  rw [Tree.release.eq_def]
  split <;> rfl

omit [Inhabited α] in
theorem keep_zero (h : Nat) (node : Node α h) : keep c h 0 node = none := by
  cases h <;> rfl

theorem release_leaf (hc : 2 ≤ c) (n : Nat) (node : Node α 0) :
    Tree.release hc (span c 0) (n + 1) (some (tree c 0 node)) = .ok ((keep c 0 (n + 1) node).map (tree c 0)) := by
  change List α at node
  have htake := @take_map_range c α (fun i => node[i]?.getD default)
    (fun i => (node.take (n + 1))[i]?.getD default) default (n + 1)
    (fun j hj => by rw [List.getElem?_take, if_pos hj])
    fun j hj => by rw [List.getElem?_take, if_neg (by omega)]; rfl
  rw [Tree.release.eq_def, if_neg (Nat.succ_ne_zero n)]
  change Except.ok (some (Tree.leaf (((List.range c).map _).take (n + 1) ++
    List.replicate (((List.range c).map _).length - (n + 1)) default))) = _
  rw [List.length_map, List.length_range]
  exact congrArg (fun cells => Except.ok (some (Tree.leaf cells))) htake

theorem release_tree (hc : 2 ≤ c) {h n : Nat} (hn : n ≤ span c h) (slot : Option (Node α h)) :
    Tree.release hc (span c h) n (slot.map (tree c h)) = .ok ((slot.bind (keep c h n)).map (tree c h)) := by
  induction h generalizing n with
  | zero =>
      cases slot with
      | none => exact release_none hc _ n
      | some node =>
          cases n with
          | zero => rw [release_zero, Option.bind_some, keep_zero, Option.map_none]
          | succ n => exact release_leaf hc n node
  | succ h ih =>
      cases slot with
      | none => exact release_none hc _ n
      | some node =>
          cases n with
          | zero => rw [release_zero, Option.bind_some, keep_zero, Option.map_none]
          | succ n =>
              have hpos := span_pos (by omega : 0 < c) h
              obtain ⟨kept, hkept, hchild⟩ := child?_keep (c := c) (n := n) node
              have hlast : n / span c h < c := place_lt (by omega)
              have hrest := Nat.div_add_mod n (span c h)
              have hmod := Nat.mod_lt n hpos
              have hslot := ih (n := n + 1 - n / span c h * span c h) (by rw [Nat.mul_comm]; omega)
                (node.child? (n / span c h))
              have htake := @take_set_map_range c _ (fun p => (node.child? p).map (tree c h))
                (fun p => (kept.child? p).map (tree c h)) none (n / span c h)
                (fun p hp => by rw [hchild, if_pos hp])
                fun p hp => by rw [hchild, if_neg (by omega), if_neg (by omega)]; rfl
              rw [hchild (n / span c h), if_neg (Nat.lt_irrefl _), if_pos rfl] at htake
              rw [Option.bind_some, hkept, Option.map_some, Option.map_some, tree, Tree.release.eq_def]
              simp only [Nat.add_eq_zero_iff, Nat.one_ne_zero, and_false, ↓reduceIte, span_succ_ne hc h,
                span_succ_div hc, hpos, ↓reduceDIte, Nat.add_sub_cancel, List.getElem?_map,
                List.getElem?_range hlast, Option.map_some, hslot, List.length_map, List.length_range]
              exact congrArg (fun children => Except.ok (some (Tree.branch children))) htake

theorem read_tree (hc : 2 ≤ c) {h i : Nat} (hi : i < span c h) (node : Node α h) :
    (tree c h node).read hc (span c h) i = .ok ((get? c h i node).getD default) := by
  induction h generalizing i with
  | zero =>
      rw [tree, Tree.read, List.getElem?_map, List.getElem?_range (span_zero c ▸ hi)]
      rfl
  | succ h ih =>
      have hpos := span_pos (by omega : 0 < c) h
      rw [tree, Tree.read]
      simp only [span_succ_div hc, hpos, ↓reduceDIte, List.getElem?_map, List.getElem?_range (place_lt hi),
        Option.map_some, Option.join_some]
      change _ = Except.ok (((node.child? (i / span c h)).bind (get? c h (i % span c h))).getD default)
      cases node.child? (i / span c h) with
      | none => rfl
      | some child => exact ih (Nat.mod_lt i hpos) child

end Node

/-! ## Operations on stored arrays -/

theorem tree_above {c h : Nat} (node : Node α h) :
    node.above.tree c = .branch ((List.replicate c none).set 0 (some (node.tree c))) := by
  have hset := @Node.set_map_range c _ (fun _ => none) (fun p => (node.above.child? p).map (Node.tree c h)) 0
    fun p hp => by
      cases p with
      | zero => exact absurd rfl hp
      | succ p => rfl
  rw [Node.map_const_range] at hset
  exact congrArg Tree.branch hset.symm

theorem stored_raise (a : SparseArray α) : a.raise.stored = a.stored.widen := by
  obtain ⟨c, hc, size, h, root⟩ := a
  cases root with
  | none => rfl
  | some node =>
      simp only [stored, raise, Stored.widen, Option.map_some, tree_above]
      rfl

namespace Stored

theorem grow_stored (n : Nat) (a : SparseArray α) :
    grow n a.stored = Operation.viewed stored .refused (SparseArray.grow n a) := by
  induction a using SparseArray.grow.induct n with
  | case1 a hlt hle ih =>
      rw [SparseArray.grow, if_pos hlt, if_pos hle, ← ih, grow, stored_raise]
      rw [capacity_raise] at hle
      exact (if_pos hlt).trans (if_pos hle)
  | case2 a hlt hle =>
      rw [SparseArray.grow, if_pos hlt, if_neg hle, grow]
      rw [capacity_raise] at hle
      exact (if_pos hlt).trans (if_neg hle)
  | case3 a hlt =>
      rw [SparseArray.grow, if_neg hlt, grow]
      exact if_neg hlt

theorem first_tree {c h : Nat} (hc : 0 < c) (capacity : Nat) (root : Option (Node α (h + 1))) :
    Tree.first capacity (root.map (Node.tree c (h + 1))) = .ok ((root.bind (Node.child? 0)).map (Node.tree c h)) := by
  cases root with
  | none => rfl
  | some node => simp [Tree.first, Node.tree, List.getElem?_range hc]

theorem narrow_lowered {c : Nat} (hc : 2 ≤ c) (n size h : Nat) (root : Option (Node α h)) :
    narrow n ⟨c, hc, Node.span c h, Node.span_pos (by omega) h, size, root.map (Node.tree c h)⟩ =
      .ok () ⟨c, hc, Node.span c (lowered c n h root).1, Node.span_pos (by omega) _, size,
        (lowered c n h root).2.map (Node.tree c (lowered c n h root).1)⟩ := by
  induction h with
  | zero =>
      rw [narrow, dif_neg (by simp [Node.span_zero])]
      rfl
  | succ h ih =>
      have hlt := Nat.lt_of_le_of_ne (Node.le_span c (h + 1)) (Node.span_succ_ne hc h).symm
      rw [narrow, lowered]
      by_cases hn : n ≤ Node.span c h
      · rw [dif_pos ⟨hlt, (Node.span_succ_div hc h).symm ▸ hn⟩, if_pos hn]
        simp only [first_tree (by omega : 0 < c), Node.span_succ_div hc]
        exact ih _
      · rw [dif_neg fun hand => hn (Node.span_succ_div hc h ▸ hand.2), if_neg hn]

theorem narrow_stored (n : Nat) (a : SparseArray α) : narrow n a.stored = .ok () (a.lower n).stored :=
  narrow_lowered a.two_le_cluster n a.size a.height a.root

theorem cut_stored {n : Nat} {a : SparseArray α} (h : n ≤ a.capacity) :
    cut n a.stored = .ok () (if n < a.size then a.cut n else a).stored := by
  have hrelease : Tree.release a.stored.two_le_cluster a.stored.capacity n a.stored.root =
      .ok (a.cut n).stored.root := Node.release_tree a.two_le_cluster h a.root
  by_cases hn : n < a.size
  · rw [if_pos hn]
    refine (if_pos hn).trans ?_
    rw [hrelease]
    rfl
  · rw [if_neg hn]
    exact if_neg hn

omit [Inhabited α] in
theorem le_capacity_of_grow {n : Nat} {a b : SparseArray α} (h : SparseArray.grow n a = .ok () b) :
    n ≤ b.capacity := by
  induction a using SparseArray.grow.induct n with
  | case1 a hlt hle ih =>
      rw [SparseArray.grow, if_pos hlt, if_pos hle] at h
      exact ih h
  | case2 a hlt hle =>
      rw [SparseArray.grow, if_pos hlt, if_neg hle] at h
      cases h
  | case3 a hlt =>
      rw [SparseArray.grow, if_neg hlt] at h
      cases h
      exact Nat.le_of_not_lt hlt

theorem resize_stored (n : Nat) (a : SparseArray α) :
    resize n a.stored = Operation.viewed stored .refused (SparseArray.resize n a) := by
  have hgrow := grow_stored n a
  cases hb : SparseArray.grow n a with
  | error e b =>
      rw [hb] at hgrow
      rw [SparseArray.resize, Operation.bind_of_error hb]
      exact Operation.bind_of_error hgrow
  | ok u b =>
      rw [hb] at hgrow
      have hroom := (lowered_spec b.cluster_pos (n := n) b.height b.root).2.1 (le_capacity_of_grow hb)
      have hcut := cut_stored (a := b.lower n) hroom
      rw [SparseArray.resize, Operation.bind_of_ok hb]
      refine (Operation.bind_of_ok hgrow).trans ((Operation.bind_of_ok (narrow_stored n b)).trans
        ((Operation.bind_of_ok hcut).trans ?_))
      rfl

theorem update_stored {a : SparseArray α} (h : a.size ≤ a.capacity) (i : Nat) (f : α → α) :
    update i f a.stored = Operation.viewed stored .refused (SparseArray.update i f a) := by
  by_cases hi : i < a.size
  · have hlocate : Tree.locate a.stored.two_le_cluster f a.stored.capacity i a.stored.root =
        .ok (a.cell i, (((a.root.getD (Node.empty a.height)).update a.cluster f a.height i).tree a.cluster)) :=
      Node.locate_tree a.two_le_cluster f (Nat.lt_of_lt_of_le hi h) a.root
    rw [SparseArray.update, if_pos hi]
    refine (if_pos hi).trans ?_
    rw [hlocate]
    rfl
  · rw [SparseArray.update, if_neg hi]
    exact if_neg hi

theorem get_stored {a : SparseArray α} (h : a.size ≤ a.capacity) (i : Nat) : get a.stored i = .ok (a.get? i) := by
  by_cases hi : i < a.size
  · rw [SparseArray.get?, if_pos hi, cell]
    refine (if_pos hi).trans ?_
    cases hroot : a.root with
    | none =>
        have hstored : a.stored.root = none := by rw [stored, hroot]; rfl
        rw [hstored]
        rfl
    | some node =>
        have hstored : a.stored.root = some (node.tree a.cluster) := by rw [stored, hroot]; rfl
        have hread : (node.tree a.cluster).read a.stored.two_le_cluster a.stored.capacity i = .ok _ :=
          Node.read_tree a.two_le_cluster (Nat.lt_of_lt_of_le hi h) node
        rw [hstored]
        refine (congrArg (Except.map some) hread).trans ?_
        rfl
  · rw [SparseArray.get?, if_neg hi]
    exact if_neg hi

end Stored

end PdfStore.SparseArray
