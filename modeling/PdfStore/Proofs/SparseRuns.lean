import Mathlib.Data.Nat.Log
import PdfStore.Proofs.SparseShape

/-!
# Sparse arrays as lists

Arrays are resized, changed, read and copied in any order, refused calls included. The same calls on plain
lists of elements are answered alike (`lists`), and so are those on arrays whose operations check every
node they meet (`storedArrays`): these never find a node of the wrong height. A list is refused a length
if no power of the cluster size that counts so many positions fits into a word (`HasRoom`).
-/

namespace PdfStore.SparseArray

variable {α ε ε' σ τ : Type}

/-! ## Calls on several arrays -/

/-- The operations of a kind of array. -/
structure Arrays (ε σ α : Type) where
  resize : Nat → Operation ε σ Unit
  update : Nat → (α → α) → Operation ε σ α
  get : σ → Nat → Except ε (Option α)
  elements : σ → Except ε (List α)
  length : σ → Nat

inductive Request (α : Type)
  | resize (n : Nat)
  | update (i : Nat) (f : α → α)
  | get (i : Nat)
  | elements
  | length

/-- A request to the array with a number, or a copy of it. -/
inductive Call (α : Type)
  | on (k : Nat) (r : Request α)
  | copy (k : Nat)

inductive Answer (α : Type)
  | done
  | element (v : α)
  | found (v : Option α)
  | elements (vs : List α)
  | length (n : Nat)
  | absent
deriving DecidableEq

namespace Arrays

variable (A : Arrays ε σ α)

def serve : Request α → Operation ε σ (Answer α)
  | .resize n => do
    A.resize n
    return .done
  | .update i f => do return .element (← A.update i f)
  | .get i => fun s => Operation.ofExcept id ((A.get s i).map .found) s
  | .elements => fun s => Operation.ofExcept id ((A.elements s).map .elements) s
  | .length => fun s => .ok (.length (A.length s)) s

/-- Copies are put after the arrays there are. -/
def perform : Call α → Operation ε (List σ) (Answer α)
  | .on k r => fun states =>
    match states[k]? with
    | none => .ok .absent states
    | some s =>
      match A.serve r s with
      | .ok a t => .ok a (states.set k t)
      | .error e t => .error e (states.set k t)
  | .copy k => fun states =>
    match states[k]? with
    | none => .ok .absent states
    | some s => .ok .done (states ++ [s])

variable {A} {states : List σ} {k : Nat} {r : Request α} {s : σ}

theorem next_on (hk : states[k]? = some s) :
    (A.perform (.on k r)).next states = states.set k ((A.serve r).next s) := by
  simp only [Operation.next, perform, hk]
  cases A.serve r s <;> rfl

theorem next_absent (hk : states[k]? = none) : (A.perform (.on k r)).next states = states := by
  simp only [Operation.next, perform, hk]

theorem next_copy : (A.perform (.copy k)).next states = states ++ states[k]?.toList := by
  simp only [Operation.next, perform]
  cases states[k]? <;> simp

end Arrays

/-- The operations of sparse arrays. The elements are what is found at the positions in order. -/
def sparseArrays [Inhabited α] : Arrays SparseError (SparseArray α) α where
  resize := resize
  update := update
  get a i := .ok (a.get? i)
  elements a := .ok ((List.range a.size).filterMap a.get?)
  length := size

/-- The operations of arrays that check their nodes. -/
def storedArrays [Inhabited α] : Arrays Fault (Stored α) α where
  resize := Stored.resize
  update := Stored.update
  get := Stored.get
  elements s := ((List.range s.size).mapM s.get).map fun found => found.filterMap id
  length := Stored.size

/-- Some power of the cluster size counts `n` positions and fits into a word; the first power always does. -/
def HasRoom (c n : Nat) : Prop := n ≤ c ∨ Nat.pow c (Nat.clog c n) ≤ maxCapacity

instance (c n : Nat) : Decidable (HasRoom c n) := inferInstanceAs (Decidable (_ ∨ _))

/-- The operations of lists. -/
def lists [Inhabited α] (c : Nat) : Arrays SparseError (List α) α where
  resize n := fun l =>
    if HasRoom c n then .ok () (l.take n ++ List.replicate (n - l.length) default)
    else .error (.capacityOverflow n) l
  update i f := fun l =>
    match l[i]? with
    | some v => .ok v (l.modify i f)
    | none => .error (.indexOutOfRange i l.length) l
  get l i := .ok l[i]?
  elements := .ok
  length := List.length

/-! ## One kind of array in place of another -/

/-- On states that satisfy `P` the operations of `B` do in another form what those of `A` do. -/
structure Simulates (P : σ → Prop) (view : σ → τ) (cause : ε → ε') (A : Arrays ε σ α) (B : Arrays ε' τ α) : Prop where
  resize : ∀ n {s}, P s → B.resize n (view s) = Operation.viewed view cause (A.resize n s)
  update : ∀ i f {s}, P s → B.update i f (view s) = Operation.viewed view cause (A.update i f s)
  get : ∀ i {s}, P s → ∃ v, A.get s i = .ok v ∧ B.get (view s) i = .ok v
  elements : ∀ {s}, P s → ∃ vs, A.elements s = .ok vs ∧ B.elements (view s) = .ok vs
  length : ∀ {s}, P s → B.length (view s) = A.length s

namespace Simulates

variable {P : σ → Prop} {view : σ → τ} {cause : ε → ε'} {A : Arrays ε σ α} {B : Arrays ε' τ α} {s : σ}

theorem serve (h : Simulates P view cause A B) (hs : P s) (r : Request α) :
    B.serve r (view s) = Operation.viewed view cause (A.serve r s) := by
  cases r with
  | resize n =>
      simp only [Arrays.serve, Operation.bind_apply, h.resize n hs]
      cases A.resize n s <;> rfl
  | update i f =>
      simp only [Arrays.serve, Operation.bind_apply, h.update i f hs]
      cases A.update i f s <;> rfl
  | get i =>
      obtain ⟨v, hA, hB⟩ := h.get i hs
      simp only [Arrays.serve, hA, hB]
      rfl
  | elements =>
      obtain ⟨vs, hA, hB⟩ := h.elements hs
      simp only [Arrays.serve, hA, hB]
      rfl
  | length =>
      simp only [Arrays.serve, h.length hs]
      rfl

theorem perform (h : Simulates P view cause A B) (k : Call α) {states : List σ} (hs : ∀ s ∈ states, P s) :
    B.perform k (states.map view) = Operation.viewed (List.map view) cause (A.perform k states) := by
  cases k with
  | on k r =>
      simp only [Arrays.perform, List.getElem?_map]
      cases hk : states[k]? with
      | none => rfl
      | some s =>
          simp only [Option.map_some, h.serve (hs s (List.mem_of_getElem? hk)) r]
          cases A.serve r s <;> simp [Operation.viewed, List.map_set]
  | copy k =>
      simp only [Arrays.perform, List.getElem?_map]
      cases states[k]? with
      | none => rfl
      | some s => simp [Operation.viewed]

theorem kept (hkeep : ∀ r {s}, P s → P ((A.serve r).next s)) (k : Call α) {states : List σ}
    (hs : ∀ s ∈ states, P s) : ∀ s ∈ (A.perform k).next states, P s := by
  intro s' hs'
  cases k with
  | on k r =>
      cases hk : states[k]? with
      | none =>
          rw [Arrays.next_absent hk] at hs'
          exact hs s' hs'
      | some s =>
          rw [Arrays.next_on hk] at hs'
          rcases List.mem_or_eq_of_mem_set hs' with hs' | rfl
          · exact hs s' hs'
          · exact hkeep r (hs s (List.mem_of_getElem? hk))
  | copy k =>
      rw [Arrays.next_copy] at hs'
      rcases List.mem_append.1 hs' with hs' | hs'
      · exact hs s' hs'
      · exact hs s' (List.mem_of_getElem? (Option.mem_toList.1 hs'))

/-- Every run of the one kind is, in the other form, a run of the other kind with the same calls. -/
theorem runs (h : Simulates P view cause A B) (hkeep : ∀ r {s}, P s → P ((A.serve r).next s)) {first : σ}
    (hfirst : P first) {log : List (Event (Call α) ε (List σ) (Answer α))} {states : List σ}
    (hruns : Runs A.perform [first] log states) :
    Runs B.perform [view first] (log.map (Event.viewed (List.map view) cause)) (states.map view) :=
  (hruns.viewed (P := fun states => ∀ s ∈ states, P s) (fun k _ hs => h.perform k hs) (fun k _ hs => kept hkeep k hs)
    (by simpa using hfirst)).1

end Simulates

/-! ## The two forms of sparse arrays -/

/-- An array that calls lead to: clean, and of a capacity that a word can count. -/
structure Sound [Inhabited α] (c : Nat) (a : SparseArray α) : Prop where
  clean : a.Clean
  cluster_eq : a.cluster = c
  counted : a.height = 0 ∨ a.capacity ≤ maxCapacity

/-- Levels are added up to the first power of the cluster size that has room, if a word can count it. -/
theorem grow_room {n : Nat} {a : SparseArray α} (h : a.height = 0 ∨ a.capacity ≤ maxCapacity) :
    ∃ b : SparseArray α, b.cluster = a.cluster ∧ (b.height = 0 ∨ b.capacity ≤ maxCapacity) ∧
      (grow n a = .ok () b ∧ HasRoom a.cluster n ∨
        grow n a = .error (.capacityOverflow n) b ∧ ¬HasRoom a.cluster n) := by
  induction a using grow.induct n with
  | case1 a hlt hle ih =>
      rw [grow, if_pos hlt, if_pos hle]
      exact ih (Or.inr hle)
  | case2 a hlt hle =>
      rw [grow, if_pos hlt, if_neg hle]
      refine ⟨a, rfl, h, Or.inr ⟨rfl, ?_⟩⟩
      have hpow : a.cluster ^ (a.height + 1) < n := hlt
      rintro (hn | hn)
      · exact absurd (Nat.lt_of_le_of_lt a.cluster_le_capacity hlt) (Nat.not_lt.2 hn)
      · have hclog : a.height + 2 ≤ Nat.clog a.cluster n := (Nat.lt_clog_iff_pow_lt a.two_le_cluster).2 hpow
        exact hle (Nat.le_trans (Nat.pow_le_pow_right a.cluster_pos hclog) hn)
  | case3 a hlt =>
      rw [grow, if_neg hlt]
      refine ⟨a, rfl, h, Or.inl ⟨rfl, ?_⟩⟩
      have hn : n ≤ a.cluster ^ (a.height + 1) := Nat.le_of_not_lt hlt
      rcases h with hzero | hcap
      · rw [hzero, Nat.pow_one] at hn
        exact Or.inl hn
      · refine Or.inr (Nat.le_trans (Nat.pow_le_pow_right a.cluster_pos ?_) hcap)
        exact Nat.clog_le_of_le_pow hn

theorem lowered_height {c n h : Nat} {root : Option (Node α h)} (hzero : h = 0) : (lowered c n h root).1 = 0 := by
  subst hzero
  rfl

variable [Inhabited α]

/-- Resizing is refused exactly if there is no room, and keeps an array sound. -/
theorem resize_sound (n : Nat) {c : Nat} {a : SparseArray α} (h : a.Sound c) :
    ∃ b : SparseArray α, b.Sound c ∧
      (resize n a = .ok () b ∧ HasRoom c n ∧
          b.toList = a.toList.take n ++ List.replicate (n - a.toList.length) default ∨
        resize n a = .error (.capacityOverflow n) b ∧ ¬HasRoom c n ∧ b.toList = a.toList) := by
  obtain ⟨b, hclean, hb⟩ := resize_spec n h.clean
  obtain ⟨g, hcluster, hcounted, hg⟩ := grow_room (n := n) h.counted
  rw [h.cluster_eq] at hcluster hg
  rw [length_toList]
  rcases hg with ⟨hg, hroom⟩ | ⟨hg, hroom⟩
  · -- Levels are only taken off from here on.
    have hresize := resize_eq_of_grow hg
    rcases hb with ⟨hb, hlist⟩ | ⟨hb, -⟩
    · rw [hresize] at hb
      injection hb with _ hb
      have hb' : b.cluster = g.cluster ∧ b.height = (g.lower n).height ∧ b.capacity = (g.lower n).capacity := by
        rw [← hb]
        split <;> exact ⟨rfl, rfl, rfl⟩
      obtain ⟨hcluster', hheight, hcapacity⟩ := hb'
      refine ⟨b, ⟨hclean, hcluster'.trans hcluster, ?_⟩, Or.inl ⟨by rw [hresize, hb], hroom, hlist⟩⟩
      rw [hheight, hcapacity]
      refine hcounted.imp lowered_height fun hcap => Nat.le_trans ?_ hcap
      exact (lowered_spec g.cluster_pos (n := n) g.height g.root).1
    · rw [hresize] at hb
      cases hb
  · have hresize : resize n a = .error (.capacityOverflow n) g := Operation.bind_of_error hg
    rcases hb with ⟨hb, -⟩ | ⟨hb, hlist⟩
    · rw [hresize] at hb
      cases hb
    · rw [hresize] at hb
      injection hb with _ hb
      subst hb
      exact ⟨g, ⟨hclean, hcluster, hcounted⟩, Or.inr ⟨hresize, hroom, hlist⟩⟩

theorem Sound.update {c : Nat} {a : SparseArray α} (h : a.Sound c) (i : Nat) (f : α → α) :
    (update i f a = .error (.indexOutOfRange i a.size) a ∧ a.toList[i]? = none) ∨
      ∃ b : SparseArray α, b.Sound c ∧ update i f a = .ok (a.cell i) b ∧ a.toList[i]? = some (a.cell i) ∧
        b.toList = a.toList.modify i f := by
  rw [getElem?_toList, get?]
  by_cases hi : i < a.size
  · obtain ⟨b, hclean, hok, hlist⟩ := update_ok h.clean hi f
    refine Or.inr ⟨b, ?_, hok, if_pos hi, hlist⟩
    rw [SparseArray.update, if_pos hi] at hok
    injection hok with _ hb
    subst hb
    exact ⟨hclean, h.cluster_eq, h.counted⟩
  · exact Or.inl ⟨by rw [SparseArray.update, if_neg hi], if_neg hi⟩

theorem sound_serve {c : Nat} (r : Request α) {a : SparseArray α} (h : a.Sound c) :
    Sound c ((sparseArrays.serve r).next a) := by
  cases r with
  | resize n =>
      have hnext : (sparseArrays.serve (.resize n)).next a = (resize n).next a := Operation.next_bind_pure ..
      rw [hnext]
      obtain ⟨b, hb, ⟨hok, -⟩ | ⟨herr, -⟩⟩ := resize_sound n h
      · rwa [Operation.next_ok hok]
      · rwa [Operation.next_error herr]
  | update i f =>
      have hnext : (sparseArrays.serve (.update i f)).next a = (update i f).next a := Operation.next_bind_pure ..
      rw [hnext]
      rcases h.update i f with ⟨herr, -⟩ | ⟨b, hb, hok, -⟩
      · rwa [Operation.next_error herr]
      · rwa [Operation.next_ok hok]
  | get i => exact h
  | elements => exact h
  | length => exact h

theorem filterMap_get? (a : SparseArray α) : (List.range a.size).filterMap a.get? = a.toList := by
  have h : ∀ l : List Nat, (∀ i ∈ l, i < a.size) → l.filterMap a.get? = l.map a.cell := by
    intro l hl
    induction l with
    | nil => rfl
    | cons i l ih =>
        obtain ⟨hi, hl⟩ := List.forall_mem_cons.1 hl
        have hcell : a.get? i = some (a.cell i) := if_pos hi
        rw [List.filterMap_cons_some hcell, ih hl, List.map_cons]
  exact h _ fun i hi => List.mem_range.1 hi

theorem mapM_get_stored {a : SparseArray α} (h : a.size ≤ a.capacity) (l : List Nat) :
    l.mapM a.stored.get = .ok (l.map a.get?) := by
  have hget : a.stored.get = fun i => pure (a.get? i) := funext (Stored.get_stored h)
  rw [hget]
  exact List.mapM_pure

theorem simulates_lists (c : Nat) : Simulates (Sound (α := α) c) toList id sparseArrays (lists c) where
  resize n {a} h := by
    obtain ⟨b, -, ⟨hok, hroom, hlist⟩ | ⟨herr, hroom, hlist⟩⟩ := resize_sound n h
    · change (if HasRoom c n then _ else _) = Operation.viewed toList id (resize n a)
      rw [if_pos hroom, hok, ← hlist]
      rfl
    · change (if HasRoom c n then _ else _) = Operation.viewed toList id (resize n a)
      rw [if_neg hroom, herr, ← hlist]
      rfl
  update i f {a} h := by
    rcases h.update i f with ⟨herr, hnone⟩ | ⟨b, -, hok, hsome, hlist⟩
    · simp only [lists, sparseArrays, hnone, herr, length_toList]
      rfl
    · simp only [lists, sparseArrays, hsome, hok, ← hlist]
      rfl
  get i {a} h := ⟨_, rfl, congrArg Except.ok (getElem?_toList a i)⟩
  elements {a} h := ⟨_, rfl, congrArg Except.ok (filterMap_get? a).symm⟩
  length h := length_toList _

theorem simulates_stored (c : Nat) :
    Simulates (Sound (α := α) c) stored Fault.refused sparseArrays storedArrays where
  resize n {a} _ := Stored.resize_stored n a
  update i f {_} h := Stored.update_stored h.clean.size_le i f
  get i {_} h := ⟨_, rfl, Stored.get_stored h.clean.size_le i⟩
  elements {a} h := by
    refine ⟨_, rfl, ?_⟩
    change ((List.range a.size).mapM a.stored.get).map _ = _
    rw [mapM_get_stored h.clean.size_le]
    exact congrArg Except.ok List.filterMap_map
  length _ := rfl

theorem sound_ofCluster {c : Nat} (hc : 2 ≤ c) : ∃ a : SparseArray α, ofCluster c = .ok a ∧ a.Sound c ∧
    a.toList = [] ∧ a.stored = .empty c hc := by
  refine ⟨⟨c, hc, 0, 0, none⟩, dif_pos hc, ⟨⟨Nat.zero_le _, fun _ _ _ => rfl⟩, rfl, Or.inl rfl⟩, rfl, ?_⟩
  simp only [stored, Stored.empty, capacity, Node.span_zero, Option.map_none]

/-- Whatever is done with an empty array and copies of it, seen through the elements it is done with lists,
and with the same answers. It is also done with arrays that check every node, where no check fails: their
only errors are those of the lists. -/
theorem runs_as_lists {c : Nat} (hc : 2 ≤ c) : ∃ first : SparseArray α, ofCluster c = .ok first ∧
    ∀ {log : List (Event (Call α) SparseError (List (SparseArray α)) (Answer α))} {arrays : List (SparseArray α)},
      Runs sparseArrays.perform [first] log arrays →
        Runs (lists c).perform [[]] (log.map (Event.viewed (List.map toList) id)) (arrays.map toList) ∧
        Runs storedArrays.perform [.empty c hc] (log.map (Event.viewed (List.map stored) Fault.refused))
          (arrays.map stored) := by
  obtain ⟨first, hok, hsound, hlist, hstored⟩ := sound_ofCluster (α := α) hc
  refine ⟨first, hok, fun {log arrays} hrun => ?_⟩
  rw [← hlist, ← hstored]
  exact ⟨(simulates_lists c).runs sound_serve hsound hrun, (simulates_stored c).runs sound_serve hsound hrun⟩

/-- An element that is cut off does not come back, and stays in a copy made before. -/
theorem runs_as_lists_of_regrown : 2 ≤ 2 ∧ ∃ (first : SparseArray Nat)
    (log : List (Event (Call Nat) SparseError (List (SparseArray Nat)) (Answer Nat)))
    (arrays : List (SparseArray Nat)), ofCluster 2 = .ok first ∧ Runs sparseArrays.perform [first] log arrays ∧
      log.map (·.outcome.toOption) = [some (.elements [0, 0, 0, 0]), none, none, some .done, some .done,
        some .done, some (.element 0), some .done] ∧
      Runs (lists 2).perform [[]] (log.map (Event.viewed (List.map toList) id)) [[0, 0, 0, 0], [0, 0, 7]] ∧
      Runs storedArrays.perform [.empty 2 (Nat.le_refl 2)]
        (log.map (Event.viewed (List.map stored) Fault.refused)) (arrays.map stored) := by
  obtain ⟨first, hfirst, h⟩ := runs_as_lists (α := Nat) (Nat.le_refl 2)
  let calls : List (Call Nat) := [.on 0 (.resize 3), .on 0 (.update 2 fun _ => 7), .copy 0, .on 0 (.resize 2),
    .on 0 (.resize 4), .on 0 (.resize maxCapacity), .on 0 (.update 4 id), .on 0 .elements]
  have hrun := runs_events sparseArrays.perform calls [first]
  have hseen : (ofCluster 2).toOption.map (fun a : SparseArray Nat =>
      ((Operation.events sparseArrays.perform calls [a]).map (·.outcome.toOption),
        (Operation.after sparseArrays.perform calls [a]).map toList)) =
      some ([some (.elements [0, 0, 0, 0]), none, none, some .done, some .done, some .done, some (.element 0),
        some .done], [[0, 0, 0, 0], [0, 0, 7]]) := by
    decide +kernel
  rw [hfirst] at hseen
  injection hseen with hseen
  injection hseen with houtcomes hlists
  -- What the calls lead to is not to be computed again.
  generalize Operation.after sparseArrays.perform calls [first] = arrays at hrun hlists
  generalize Operation.events sparseArrays.perform calls [first] = log at hrun houtcomes
  obtain ⟨hl, hs⟩ := h hrun
  exact ⟨Nat.le_refl 2, first, log, arrays, hfirst, hrun, houtcomes, hlists ▸ hl, hs⟩

end PdfStore.SparseArray
