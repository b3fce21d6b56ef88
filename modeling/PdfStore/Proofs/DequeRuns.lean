import Mathlib.Data.List.Induction
import Mathlib.Order.MinMax
import PdfStore.Proofs.SparseRuns
import PdfStore.Sparse.Deque

/-!
# Double-ended queues as lists

Values are added, taken and looked at, at both ends of a queue and in any order. The same calls on a list
are answered alike (`performOnList`) and leave the elements of the queue. A list is refused another element
only at the length that no capacity goes beyond (`mostElements`), and then neither of them has changed.
-/

namespace PdfStore

namespace SparseArray

variable {α : Type}

/-- The largest capacity: the largest power of the cluster size in a word, or the cluster size itself. -/
def mostElements (c : Nat) : Nat := max c (Nat.pow c (Nat.log c maxCapacity))

theorem hasRoom_iff {c n : Nat} (hc : 2 ≤ c) : HasRoom c n ↔ n ≤ mostElements c := by
  rw [HasRoom, mostElements, le_max_iff]
  refine or_congr_right ⟨fun h => ?_, fun h => ?_⟩
  · have hlog : Nat.clog c n ≤ Nat.log c maxCapacity := (Nat.le_log_iff_pow_le hc (by decide)).2 h
    exact Nat.le_trans (Nat.le_pow_clog hc n) (Nat.pow_le_pow_right (by omega) hlog)
  · have hclog : Nat.clog c n ≤ Nat.log c maxCapacity := Nat.clog_le_of_le_pow h
    calc Nat.pow c (Nat.clog c n) ≤ Nat.pow c (Nat.log c maxCapacity) := Nat.pow_le_pow_right (by omega) hclog
      _ ≤ maxCapacity := Nat.pow_log_le_self c (by decide)

theorem modify_append_cons (l r : List α) (x : α) (f : α → α) :
    (l ++ x :: r).modify l.length f = l ++ f x :: r := by
  induction l with
  | nil => rfl
  | cons y l ih => rw [List.cons_append, List.length_cons, List.modify_succ_cons, ih, List.cons_append]

variable [Inhabited α] {c : Nat} {a : SparseArray α} {l r : List α} {x : α}

theorem Sound.size_le_mostElements (h : a.Sound c) : a.size ≤ mostElements c := by
  have hc : 2 ≤ c := h.cluster_eq ▸ a.two_le_cluster
  have hsize : a.size ≤ Nat.pow c (a.height + 1) := h.cluster_eq ▸ h.clean.size_le
  rcases h.counted with hzero | hcap
  · rw [hzero] at hsize
    exact Nat.le_trans hsize (Nat.le_trans (Nat.le_of_eq (Nat.pow_one c)) (Nat.le_max_left ..))
  · have hcap : Nat.pow c (a.height + 1) ≤ maxCapacity := h.cluster_eq ▸ hcap
    have hlog : a.height + 1 ≤ Nat.log c maxCapacity := (Nat.le_log_iff_pow_le hc (by decide)).2 hcap
    exact Nat.le_trans hsize (Nat.le_trans (Nat.pow_le_pow_right (by omega) hlog) (Nat.le_max_right ..))

/-! ## What the operations behind a queue do with the elements -/

/-- Room for one more element, which holds the default; an array of the largest size stays as it is. -/
theorem Sound.resize_succ (h : a.Sound c) : ∃ b : SparseArray α, b.Sound c ∧
    (a.toList.length < mostElements c ∧ resize (a.size + 1) a = .ok () b ∧ b.toList = a.toList ++ [default] ∨
      ¬a.toList.length < mostElements c ∧ resize (a.size + 1) a = .error (.capacityOverflow (a.size + 1)) b ∧
        b.toList = a.toList) := by
  have hc : 2 ≤ c := h.cluster_eq ▸ a.two_le_cluster
  obtain ⟨b, hb, hresize⟩ := resize_sound (a.size + 1) h
  rw [hasRoom_iff hc, Nat.succ_le_iff, length_toList] at hresize
  rw [length_toList]
  refine ⟨b, hb, hresize.imp (fun ⟨hok, hroom, hlist⟩ => ⟨hroom, hok, ?_⟩) fun ⟨herr, hroom, hlist⟩ =>
    ⟨hroom, herr, hlist⟩⟩
  rw [hlist, List.take_of_length_le (by rw [length_toList]; omega), Nat.add_sub_cancel_left, List.replicate_one]

/-- The last element is cut off. -/
theorem Sound.resize_init (h : a.Sound c) (hl : a.toList = l ++ [x]) :
    ∃ b : SparseArray α, b.Sound c ∧ resize l.length a = .ok () b ∧ b.toList = l := by
  have hc : 2 ≤ c := h.cluster_eq ▸ a.two_le_cluster
  have hsize : a.size = l.length + 1 := by rw [← length_toList, hl, List.length_append, List.length_singleton]
  obtain ⟨b, hb, ⟨hok, -, hlist⟩ | ⟨-, hroom, -⟩⟩ := resize_sound l.length h
  · refine ⟨b, hb, hok, ?_⟩
    rw [hlist, hl]
    simp
  · have := h.size_le_mostElements
    rw [hasRoom_iff hc] at hroom
    omega

/-- A value is put in the place of an element, which is answered. -/
theorem Sound.put_at (h : a.Sound c) (hl : a.toList = l ++ x :: r) (v : α) :
    ∃ b : SparseArray α, b.Sound c ∧ put l.length v a = .ok x b ∧ b.toList = l ++ v :: r := by
  have hx : a.toList[l.length]? = some x := by simp [hl]
  rcases h.update l.length (fun _ => v) with ⟨-, hnone⟩ | ⟨b, hb, hok, hcell, hlist⟩
  · rw [hnone] at hx
    cases hx
  · rw [hcell] at hx
    injection hx with hx
    refine ⟨b, hb, hx ▸ hok, ?_⟩
    rw [hlist, hl, modify_append_cons]

theorem Sound.take_at (h : a.Sound c) (hl : a.toList = l ++ x :: r) :
    ∃ b : SparseArray α, b.Sound c ∧ take l.length a = .ok x b ∧ b.toList = l ++ default :: r :=
  h.put_at hl default

end SparseArray

namespace Deque

open SparseArray

variable {α : Type} {c : Nat} {l r : List α} {x : α} {a : SparseArray α} {q : Deque α}

/-! ## Calls on queues and on lists -/

inductive Call (α : Type)
  | pushBack (v : α)
  | pushFront (v : α)
  | popBack
  | popFront
  | front
  | back
  | size
  | isEmpty

inductive Answer (α : Type)
  | done
  | element (v : Option α)
  | size (n : Nat)
  | isEmpty (b : Bool)
deriving DecidableEq

/-- One more element, if the list is shorter than `mostElements c`. -/
def extendList (c : Nat) (extended : List α → List α) : Operation SparseError (List α) Unit := fun l =>
  if l.length < mostElements c then .ok () (extended l) else .error (.capacityOverflow (l.length + 1)) l

theorem extendList_ok (extended : List α → List α) (h : l.length < mostElements c) :
    extendList c extended l = .ok () (extended l) :=
  if_pos h

theorem extendList_error (extended : List α → List α) (h : ¬l.length < mostElements c) :
    extendList c extended l = .error (.capacityOverflow (l.length + 1)) l :=
  if_neg h

/-- The calls on lists of at most `mostElements c` elements. -/
def performOnList (c : Nat) : Call α → Operation SparseError (List α) (Answer α)
  | .pushBack v => do
    extendList c (· ++ [v])
    return .done
  | .pushFront v => do
    extendList c (v :: ·)
    return .done
  | .popBack => fun l => .ok (.element l.getLast?) l.dropLast
  | .popFront => fun l => .ok (.element l.head?) l.tail
  | .front => fun l => .ok (.element l.head?) l
  | .back => fun l => .ok (.element l.getLast?) l
  | .size => fun l => .ok (.size l.length) l
  | .isEmpty => fun l => .ok (.isEmpty l.isEmpty) l

/-- Below the largest size no call is refused. -/
theorem performOnList_ok (k : Call α) (h : l.length < mostElements c) :
    ((performOnList c k).outcome l).isOk := by
  cases k with
  | pushBack v =>
      rw [performOnList, Operation.outcome_bind_pure, Operation.outcome_ok (extendList_ok _ h)]
      rfl
  | pushFront v =>
      rw [performOnList, Operation.outcome_bind_pure, Operation.outcome_ok (extendList_ok _ h)]
      rfl
  | _ => rfl

theorem onItems_of_ok {β : Type} {x : Operation SparseError (SparseArray α) β} {v : β}
    (h : x q.items = .ok v a) : onItems x q = .ok v ⟨a⟩ :=
  Operation.onPart_of_ok h

theorem onItems_of_error {β : Type} {x : Operation SparseError (SparseArray α) β} {e : SparseError}
    (h : x q.items = .error e a) : onItems x q = .error e ⟨a⟩ :=
  Operation.onPart_of_error h

variable [Inhabited α]

def perform : Call α → Operation SparseError (Deque α) (Answer α)
  | .pushBack v => do
    pushBack v
    return .done
  | .pushFront v => do
    pushFront v
    return .done
  | .popBack => do return .element (← popBack)
  | .popFront => do return .element (← popFront)
  | .front => do return .element (← get).front?
  | .back => do return .element (← get).back?
  | .size => do return .size (← get).size
  | .isEmpty => do return .isEmpty (← get).isEmpty

/-- An operation does with a queue what another one does with its elements. -/
structure ActsAs {β : Type} (c : Nat) (x : Operation SparseError (Deque α) β) (y : Operation SparseError (List α) β)
    (q : Deque α) : Prop where
  sound : (x.next q).items.Sound c
  same : y q.toList = Operation.viewed toList id (x q)

namespace ActsAs

variable {β γ : Type} {x : Operation SparseError (Deque α) β} {y : Operation SparseError (List α) β} {q t : Deque α}

theorem of_ok {v : β} (ht : t.items.Sound c) (hx : x q = .ok v t) (hy : y q.toList = .ok v t.toList) :
    ActsAs c x y q :=
  ⟨Operation.next_ok hx ▸ ht, by rw [hx, hy]; rfl⟩

theorem of_error {e : SparseError} (ht : t.items.Sound c) (hx : x q = .error e t)
    (hy : y q.toList = .error e t.toList) : ActsAs c x y q :=
  ⟨Operation.next_error hx ▸ ht, by rw [hx, hy]; rfl⟩

theorem map (h : ActsAs c x y q) (f : β → γ) :
    ActsAs c (x >>= fun v => pure (f v)) (y >>= fun v => pure (f v)) q where
  sound := (Operation.next_bind_pure x f q).symm ▸ h.sound
  same := by
    rw [Operation.bind_apply, Operation.bind_apply, h.same]
    cases x q <;> rfl

theorem isOk_eq (h : ActsAs c x y q) : (x.outcome q).isOk = (y.outcome q.toList).isOk := by
  simp only [Operation.outcome, h.same]
  cases x q <;> rfl

end ActsAs

/-! ## The operations -/

/-- The elements before a free place have moved up; the free place is the first one then. -/
theorem shiftUp_spec (h : a.Sound c) (hl : a.toList = l ++ x :: r) :
    ∃ (b : SparseArray α) (y : α), b.Sound c ∧ shiftUp l.length a = .ok () b ∧ b.toList = y :: (l ++ r) := by
  induction l using List.reverseRecOn generalizing a x r with
  | nil => exact ⟨a, x, h, rfl, hl⟩
  | append_singleton l v ih =>
      rw [List.append_assoc] at hl
      obtain ⟨a₁, h₁, htake, hl₁⟩ := h.take_at hl
      rw [List.append_cons] at hl₁
      obtain ⟨a₂, h₂, hput, hl₂⟩ := h₁.put_at hl₁ v
      rw [← List.append_cons] at hl₂
      rw [List.length_append, List.length_singleton] at hput
      obtain ⟨b, y, hb, hshift, hlist⟩ := ih h₂ hl₂
      refine ⟨b, y, hb, ?_, by rw [hlist, List.append_assoc, List.singleton_append]⟩
      rw [List.length_append, List.length_singleton, shiftUp]
      rw [Operation.bind_of_ok htake, Operation.bind_of_ok hput]
      exact hshift

/-- The elements after a free place have moved down; the free place is the last one then. -/
theorem shiftDown_spec (h : a.Sound c) (hl : a.toList = l ++ x :: r) :
    ∃ (b : SparseArray α) (y : α), b.Sound c ∧ shiftDown l.length r.length a = .ok () b ∧
      b.toList = l ++ r ++ [y] := by
  induction r generalizing a l x with
  | nil => exact ⟨a, x, h, rfl, by rw [hl, List.append_nil]⟩
  | cons v r ih =>
      rw [List.append_cons] at hl
      obtain ⟨a₁, h₁, htake, hl₁⟩ := h.take_at hl
      rw [List.length_append, List.length_singleton] at htake
      rw [← List.append_cons] at hl₁
      obtain ⟨a₂, h₂, hput, hl₂⟩ := h₁.put_at hl₁ v
      rw [List.append_cons] at hl₂
      obtain ⟨b, y, hb, hshift, hlist⟩ := ih h₂ hl₂
      rw [List.length_append] at hshift
      refine ⟨b, y, hb, ?_, by rw [hlist, List.append_cons l v r]⟩
      rw [List.length_cons, shiftDown]
      rw [Operation.bind_of_ok htake, Operation.bind_of_ok hput]
      exact hshift

theorem length_toList_eq_size (q : Deque α) : q.toList.length = q.size := length_toList q.items

theorem pushBack_acts (h : q.items.Sound c) (v : α) : ActsAs c (pushBack v) (extendList c (· ++ [v])) q := by
  obtain ⟨a, ha, ⟨hroom, hresize, hl⟩ | ⟨hroom, hresize, hl⟩⟩ := h.resize_succ
  · obtain ⟨b, hb, hput, hlist⟩ := ha.put_at hl v
    rw [length_toList] at hput
    refine .of_ok (t := ⟨b⟩) hb ?_ ((extendList_ok _ hroom).trans (congrArg _ hlist.symm))
    rw [pushBack, Operation.bind_of_ok (Operation.get_apply q)]
    refine onItems_of_ok ?_
    rw [size, Operation.bind_of_ok hresize, Operation.bind_of_ok hput]
    rfl
  · have herror := extendList_error (· ++ [v]) hroom
    rw [length_toList] at herror
    refine .of_error (t := ⟨a⟩) ha ?_ (herror.trans (congrArg _ hl.symm))
    exact onItems_of_error (Operation.bind_of_error hresize)

theorem pushFront_acts (h : q.items.Sound c) (v : α) : ActsAs c (pushFront v) (extendList c (v :: ·)) q := by
  obtain ⟨a, ha, ⟨hroom, hresize, hl⟩ | ⟨hroom, hresize, hl⟩⟩ := h.resize_succ
  · obtain ⟨a₁, y, h₁, hshift, hl₁⟩ := shiftUp_spec ha hl
    rw [length_toList] at hshift
    obtain ⟨b, hb, hput, hlist⟩ := h₁.put_at (l := []) hl₁ v
    rw [List.append_nil] at hlist
    refine .of_ok (t := ⟨b⟩) hb ?_ ((extendList_ok _ hroom).trans (congrArg _ hlist.symm))
    rw [pushFront, Operation.bind_of_ok (Operation.get_apply q)]
    refine onItems_of_ok ?_
    rw [size, Operation.bind_of_ok hresize, Operation.bind_of_ok hshift]
    exact Operation.bind_of_ok hput
  · have herror := extendList_error (v :: ·) hroom
    rw [length_toList] at herror
    refine .of_error (t := ⟨a⟩) ha ?_ (herror.trans (congrArg _ hl.symm))
    exact onItems_of_error (Operation.bind_of_error hresize)

theorem popBack_acts (h : q.items.Sound c) :
    ActsAs c popBack (fun l => .ok l.getLast? l.dropLast) q := by
  have hlength := length_toList_eq_size q
  rcases List.eq_nil_or_concat q.toList with hnil | ⟨l, x, hl⟩
  · refine .of_ok h ?_ (by rw [hnil]; rfl)
    rw [popBack, Operation.bind_of_ok (Operation.get_apply q), ← hlength, hnil]
    rfl
  · rw [List.concat_eq_append] at hl
    obtain ⟨a, ha, htake, hl₁⟩ := h.take_at hl
    obtain ⟨b, hb, hresize, hlist⟩ := ha.resize_init hl₁
    refine .of_ok (t := ⟨b⟩) (v := some x) hb ?_ ?_
    · rw [hl, List.length_append, List.length_singleton] at hlength
      rw [popBack, Operation.bind_of_ok (Operation.get_apply q), ← hlength]
      refine onItems_of_ok ?_
      rw [Operation.bind_of_ok htake, Operation.bind_of_ok hresize]
      rfl
    · rw [hl, List.getLast?_concat, List.dropLast_concat, ← hlist]
      rfl

theorem popFront_acts (h : q.items.Sound c) : ActsAs c popFront (fun l => .ok l.head? l.tail) q := by
  have hlength := length_toList_eq_size q
  cases hl : q.toList with
  | nil =>
      refine .of_ok h ?_ (by rw [hl]; rfl)
      rw [popFront, Operation.bind_of_ok (Operation.get_apply q), ← hlength, hl]
      rfl
  | cons x r =>
      obtain ⟨a, ha, htake, hl₁⟩ := h.take_at (l := []) hl
      obtain ⟨a₁, y, h₁, hshift, hl₂⟩ := shiftDown_spec (l := []) ha hl₁
      obtain ⟨b, hb, hresize, hlist⟩ := h₁.resize_init hl₂
      refine .of_ok (t := ⟨b⟩) (v := some x) hb ?_ ?_
      · rw [hl, List.length_cons] at hlength
        rw [List.length_nil] at htake hshift
        rw [popFront, Operation.bind_of_ok (Operation.get_apply q), ← hlength]
        refine onItems_of_ok ?_
        rw [Operation.bind_of_ok htake, Operation.bind_of_ok hshift]
        exact Operation.bind_of_ok hresize
      · rw [hl]
        exact congrArg _ hlist.symm

theorem front?_eq_head? (q : Deque α) : q.front? = q.toList.head? := by
  rw [List.head?_eq_getElem?]
  exact (getElem?_toList q.items 0).symm

theorem isEmpty_eq (q : Deque α) : q.isEmpty = q.toList.isEmpty := by
  rw [Bool.eq_iff_iff, List.isEmpty_iff_length_eq_zero, length_toList_eq_size]
  exact beq_iff_eq

theorem back?_eq_getLast? (q : Deque α) : q.back? = q.toList.getLast? := by
  rw [List.getLast?_eq_getElem?, length_toList_eq_size, back?]
  split
  · rename_i hempty
    rw [List.isEmpty_iff.1 ((isEmpty_eq q).symm.trans hempty), List.getElem?_nil]
  · exact (getElem?_toList q.items _).symm

/-- A call on a queue and the call on its elements. -/
theorem perform_acts (k : Call α) (h : q.items.Sound c) : ActsAs c (perform k) (performOnList c k) q := by
  cases k with
  | pushBack v => exact (pushBack_acts h v).map fun _ => Answer.done
  | pushFront v => exact (pushFront_acts h v).map fun _ => Answer.done
  | popBack => exact (popBack_acts h).map Answer.element
  | popFront => exact (popFront_acts h).map Answer.element
  | front => exact .of_ok h rfl (by rw [front?_eq_head?]; rfl)
  | back => exact .of_ok h rfl (by rw [back?_eq_getLast?]; rfl)
  | size => exact .of_ok h rfl (by rw [← length_toList_eq_size]; rfl)
  | isEmpty => exact .of_ok h rfl (by rw [isEmpty_eq]; rfl)

/-! ## Runs -/

/-- Whatever is done with an empty queue, at both ends, is done with a list: the answers are the same, the
elements of the queue are those of the list, and no call fails with fewer elements than fit. -/
theorem runs_as_list {c : Nat} (hc : 2 ≤ c) : ∃ first : Deque α, ofCluster c = .ok first ∧
    ∀ {log : List (Event (Call α) SparseError (Deque α) (Answer α))} {q : Deque α}, Runs perform first log q →
      Runs (performOnList c) [] (log.map (Event.viewed toList id)) q.toList ∧
        ∀ event ∈ log, event.before.size < mostElements c → event.outcome.isOk := by
  obtain ⟨a, hok, hsound, hlist, -⟩ := sound_ofCluster (α := α) hc
  refine ⟨⟨a⟩, by rw [ofCluster, hok]; rfl, fun {log q} hrun => ⟨?_, ?_⟩⟩
  · have h := hrun.viewed (P := fun q => q.items.Sound c) (fun k _ hq => (perform_acts k hq).same)
      (fun k _ hq => (perform_acts k hq).sound) hsound
    exact hlist ▸ h.1
  · refine (hrun.forall_event (P := fun q => q.items.Sound c) (fun k {q} hq hsize => ?_)
      (fun k _ hq => (perform_acts k hq).sound) hsound).1
    have hlt : q.toList.length < mostElements c := (length_toList_eq_size q).symm ▸ hsize
    exact (perform_acts k hq).isOk_eq.trans (performOnList_ok k hlt)

/-- Both ends are used while the array behind the queue grows past two leaves and shrinks again. -/
theorem runs_as_list_of_both_ends : 2 ≤ 2 ∧ ∃ (first : Deque Nat)
    (log : List (Event (Call Nat) SparseError (Deque Nat) (Answer Nat))) (q : Deque Nat),
      ofCluster 2 = .ok first ∧ Runs perform first log q ∧
        log.map (·.outcome.toOption) = [some (.isEmpty false), some (.size 1), some (.element (some 8)),
          some (.element (some 9)), some (.element (some 7)), some (.element (some 9)), some (.element (some 6)),
          some .done, some .done, some .done, some .done, some (.element none)] ∧
        Runs (performOnList 2) [] (log.map (Event.viewed toList id)) [8] ∧
        ∀ event ∈ log, event.before.size < mostElements 2 → event.outcome.isOk := by
  obtain ⟨first, hfirst, h⟩ := runs_as_list (α := Nat) (Nat.le_refl 2)
  let calls : List (Call Nat) := [.popFront, .pushBack 7, .pushFront 6, .pushBack 8, .pushBack 9, .popFront, .back,
    .popFront, .popBack, .front, .size, .isEmpty]
  have hrun := runs_events perform calls first
  have hseen : (ofCluster 2).toOption.map (fun q : Deque Nat =>
      ((Operation.events perform calls q).map (·.outcome.toOption), (Operation.after perform calls q).toList)) =
      some ([some (.isEmpty false), some (.size 1), some (.element (some 8)), some (.element (some 9)),
        some (.element (some 7)), some (.element (some 9)), some (.element (some 6)), some .done, some .done,
        some .done, some .done, some (.element none)], [8]) := by
    decide +kernel
  rw [hfirst] at hseen
  injection hseen with hseen
  injection hseen with houtcomes hlist
  -- What the calls lead to is not to be computed again.
  generalize Operation.after perform calls first = q at hrun hlist
  generalize Operation.events perform calls first = log at hrun houtcomes
  obtain ⟨hl, hok⟩ := h hrun
  exact ⟨Nat.le_refl 2, first, log, q, hfirst, hrun, houtcomes, hlist ▸ hl, hok⟩

end Deque

end PdfStore
