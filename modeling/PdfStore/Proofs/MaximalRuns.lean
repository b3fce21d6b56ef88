import Mathlib.Data.List.Pairwise
import PdfStore.Proofs.TableSlots
import PdfStore.Table.Segments

/-!
# Maximal runs

The runs of slots that have changed stand in the order of their numbers with an unchanged slot between any two, and their
numbers are exactly those of the changed slots (`SlotRun.Maximal`). A single pass over the slots finds them, with at most
one run that is still open (`SlotRun.Scan`).
-/

namespace PdfStore

namespace SlotRun

variable {n : Nat} {marks : List Bool} {r : SlotRun} {runs : List SlotRun}

def numbers (r : SlotRun) : List Nat := List.range' r.first r.length

/-- The number behind the last one of a run. -/
def stop (r : SlotRun) : Nat := r.first + r.length

theorem mem_numbers {i : Nat} : i ∈ r.numbers ↔ r.first ≤ i ∧ i < r.stop := List.mem_range'_1

/-! ## Runs that lie apart -/

structure Separate (runs : List SlotRun) : Prop where
  nonempty : ∀ r ∈ runs, 1 ≤ r.length
  apart : runs.Pairwise fun r r' => r.stop < r'.first

/-- Runs with one more in front, which becomes one with the first of them if that begins where it ends. -/
def extend (r : SlotRun) : List SlotRun → List SlotRun
  | [] => [r]
  | r' :: rest => if r'.first = r.stop then ⟨r.first, r.length + r'.length⟩ :: rest else r :: r' :: rest

theorem numbers_extend (r : SlotRun) (runs : List SlotRun) :
    (extend r runs).flatMap numbers = r.numbers ++ runs.flatMap numbers := by
  cases runs with
  | nil => simp [extend]
  | cons r' rest =>
      rw [extend]
      split
      · rename_i h
        have hjoin : List.range' r.first (r.length + r'.length) =
            List.range' r.first r.length ++ List.range' r.stop r'.length := by
          rw [stop, List.range'_append_1]
        simp only [List.flatMap_cons, numbers, h, hjoin, List.append_assoc]
      · rw [List.flatMap_cons]

theorem Separate.extend (h : Separate runs) (hr : 1 ≤ r.length) (hle : ∀ r' ∈ runs, r.stop ≤ r'.first) :
    Separate (extend r runs) := by
  cases runs with
  | nil => exact ⟨List.forall_mem_singleton.2 hr, List.pairwise_singleton ..⟩
  | cons r' rest =>
      obtain ⟨hfirst, hrest⟩ := List.pairwise_cons.1 h.apart
      obtain ⟨hr', hnonempty⟩ := List.forall_mem_cons.1 h.nonempty
      rw [SlotRun.extend]
      split
      · rename_i heq
        have hstop : r.first + (r.length + r'.length) = r'.stop := by
          rw [SlotRun.stop, heq, SlotRun.stop, Nat.add_assoc]
        refine ⟨List.forall_mem_cons.2 ⟨Nat.le_trans hr (Nat.le_add_right _ _), hnonempty⟩, List.pairwise_cons.2 ⟨?_, hrest⟩⟩
        intro r'' hr''
        exact lt_of_eq_of_lt hstop (hfirst r'' hr'')
      · rename_i hne
        have hlt : r.stop < r'.first := Nat.lt_of_le_of_ne (hle r' List.mem_cons_self) (Ne.symm hne)
        refine ⟨List.forall_mem_cons.2 ⟨hr, h.nonempty⟩, List.pairwise_cons.2 ⟨List.forall_mem_cons.2 ⟨hlt, ?_⟩, h.apart⟩⟩
        intro r'' hr''
        have hstop : r'.first ≤ r'.stop := Nat.le_add_right _ _
        exact Nat.lt_trans hlt (Nat.lt_of_le_of_lt hstop (hfirst r'' hr''))

/-- Going on with a run by one number, and then by the runs behind it. -/
theorem extend_extend (r : SlotRun) (runs : List SlotRun) :
    extend r (extend ⟨r.stop, 1⟩ runs) = extend ⟨r.first, r.length + 1⟩ runs := by
  cases runs with
  | nil => exact if_pos rfl
  | cons r' rest =>
      have hstop : SlotRun.stop ⟨r.first, r.length + 1⟩ = SlotRun.stop ⟨r.stop, 1⟩ := rfl
      rw [extend, extend, hstop]
      split
      · exact (if_pos rfl).trans (by rw [Nat.add_assoc])
      · exact if_pos rfl

theorem extend_of_lt (h : ∀ r' ∈ runs, r.stop < r'.first) : extend r runs = r :: runs := by
  cases runs with
  | nil => rfl
  | cons r' rest => exact if_neg (Nat.ne_of_gt (h r' List.mem_cons_self))

/-- Which of two runs comes first. -/
def Beside (r r' : SlotRun) : Prop := r.stop < r'.first ∨ r'.stop < r.first

instance : Std.Symm Beside := ⟨fun _ _ => Or.symm⟩

/-- The number behind one of the runs belongs to none. -/
theorem Separate.stop_not_mem (h : Separate runs) (hr : r ∈ runs) : ∀ r' ∈ runs, r.stop ∉ r'.numbers := by
  intro r' hr' hmem
  obtain ⟨hle, hlt⟩ := mem_numbers.1 hmem
  have hbeside : runs.Pairwise Beside := h.apart.imp Or.inl
  rcases eq_or_ne r r' with rfl | hne
  · exact absurd hlt (Nat.lt_irrefl _)
  · rcases hbeside.forall hr hr' hne with hbefore | hbehind
    · exact absurd hle (Nat.not_le_of_lt hbefore)
    · have hstop : r.first ≤ r.stop := Nat.le_add_right _ _
      exact absurd (Nat.lt_trans hlt hbehind) (Nat.not_lt_of_le hstop)

/-! ## The runs of marks -/

/-- The numbers of the marks that are set; the first mark has number `n`. -/
def marked (n : Nat) (marks : List Bool) : List Nat :=
  (marks.zipIdx n).filterMap fun (mark, i) => if mark then some i else none

theorem marked_true : marked n (true :: marks) = n :: marked (n + 1) marks := by
  rw [marked, List.zipIdx_cons]
  exact List.filterMap_cons_some rfl

theorem marked_false : marked n (false :: marks) = marked (n + 1) marks := by
  rw [marked, List.zipIdx_cons]
  exact List.filterMap_cons_none rfl

theorem mem_marked {i : Nat} : i ∈ marked n marks ↔ n ≤ i ∧ marks[i - n]? = some true := by
  rw [← List.mk_mem_zipIdx_iff_le_and_getElem?_sub, marked, List.mem_filterMap]
  constructor
  · rintro ⟨⟨mark, j⟩, hmem, h⟩
    simp only [Option.ite_none_right_eq_some, Option.some.injEq] at h
    obtain ⟨rfl, rfl⟩ := h
    exact hmem
  · exact fun hmem => ⟨(true, i), hmem, rfl⟩

/-- The maximal runs of the marks that are set. -/
structure Maximal (n : Nat) (marks : List Bool) (runs : List SlotRun) : Prop extends Separate runs where
  numbers_eq : runs.flatMap numbers = marked n marks

theorem Maximal.mem_iff (h : Maximal n marks runs) {i : Nat} :
    (∃ r ∈ runs, i ∈ r.numbers) ↔ n ≤ i ∧ marks[i - n]? = some true := by
  rw [← mem_marked, ← h.numbers_eq, List.mem_flatMap]

theorem Maximal.le_first (h : Maximal n marks runs) : ∀ r ∈ runs, n ≤ r.first := by
  intro r hr
  have hlt : r.first < r.stop := Nat.lt_add_of_pos_right (h.nonempty r hr)
  exact (h.mem_iff.1 ⟨r, hr, mem_numbers.2 ⟨Nat.le_refl _, hlt⟩⟩).1

theorem ofMarks_true : ofMarks n (true :: marks) = extend ⟨n, 1⟩ (ofMarks (n + 1) marks) := by
  rw [ofMarks]
  cases ofMarks (n + 1) marks with
  | nil => rfl
  | cons r rest => simp only [extend, stop, Nat.add_comm]

theorem maximal_ofMarks (n : Nat) (marks : List Bool) : Maximal n marks (ofMarks n marks) := by
  induction marks generalizing n with
  | nil => exact ⟨⟨List.forall_mem_nil _, List.Pairwise.nil⟩, rfl⟩
  | cons mark marks ih =>
      have ih := ih (n + 1)
      cases mark with
      | false => exact ⟨ih.toSeparate, marked_false ▸ ih.numbers_eq⟩
      | true =>
          rw [ofMarks_true]
          refine ⟨ih.toSeparate.extend (Nat.le_refl 1) ih.le_first, ?_⟩
          rw [numbers_extend, ih.numbers_eq, marked_true]
          rfl

/-! ## One pass over the marks -/

/-- A pass over marks: the runs that are complete, and the one that is open. -/
structure Scan where
  closed : List SlotRun
  running : Option SlotRun

namespace Scan

variable {c : Scan}

def found (c : Scan) : List SlotRun := c.closed ++ c.running.toList

/-- One mark and its number: a mark that is not set completes the open run, another one goes on with it or opens one. -/
def step (c : Scan) : Bool × Nat → Scan
  | (false, _) => ⟨c.found, none⟩
  | (true, n) =>
    match c.running with
    | none => ⟨c.closed, some ⟨n, 1⟩⟩
    | some r => ⟨c.closed, some ⟨r.first, r.length + 1⟩⟩

/-- What a pass has found once it has also met some runs. -/
def followedBy (c : Scan) (runs : List SlotRun) : List SlotRun :=
  match c.running with
  | none => c.closed ++ runs
  | some r => c.closed ++ extend r runs

/-- The next mark has number `n`, so an open run ends right in front of it. -/
def Reaches (c : Scan) (n : Nat) : Prop := ∀ r ∈ c.running, r.stop = n

theorem Reaches.step (h : c.Reaches n) (mark : Bool) : (c.step (mark, n)).Reaches (n + 1) := by
  obtain ⟨closed, running⟩ := c
  cases mark with
  | false => nofun
  | true =>
      cases running with
      | none => exact fun r hr => Option.some.inj hr ▸ rfl
      | some r =>
          have hstop : r.stop = n := h r rfl
          intro r' hr'
          rw [← Option.some.inj hr', ← hstop]
          rfl

/-- One step finds what the mark adds to the runs behind it. -/
theorem followedBy_step (h : c.Reaches n) (mark : Bool) (marks : List Bool) :
    (c.step (mark, n)).followedBy (ofMarks (n + 1) marks) = c.followedBy (ofMarks n (mark :: marks)) := by
  obtain ⟨closed, running⟩ := c
  cases running with
  | none =>
      cases mark with
      | false => simp [step, followedBy, found, ofMarks]
      | true => simp [step, followedBy, ofMarks_true]
  | some r =>
      have hstop : r.stop = n := h r rfl
      cases mark with
      | false =>
          have hbehind : extend r (ofMarks (n + 1) marks) = r :: ofMarks (n + 1) marks :=
            extend_of_lt fun r' hr' => hstop ▸ (maximal_ofMarks (n + 1) marks).le_first r' hr'
          simp [step, followedBy, found, ofMarks, hbehind]
      | true => simp only [step, followedBy, ofMarks_true, ← hstop, extend_extend]

/-- What is found when the pass ends. -/
theorem found_foldl (h : c.Reaches n) (marks : List Bool) :
    ((marks.zipIdx n).foldl step c).found = c.followedBy (ofMarks n marks) := by
  induction marks generalizing n c with
  | nil =>
      obtain ⟨closed, running⟩ := c
      cases running <;> rfl
  | cons mark marks ih => rw [List.zipIdx_cons, List.foldl_cons, ih (h.step mark), followedBy_step h]

end Scan

/-- The runs that a pass over all marks finds. -/
def scan (marks : List Bool) : List SlotRun := (marks.zipIdx.foldl Scan.step ⟨[], none⟩).found

theorem scan_eq_ofMarks (marks : List Bool) : scan marks = ofMarks 0 marks :=
  Scan.found_foldl (c := ⟨[], none⟩) (fun _ hr => nomatch hr) marks

end SlotRun

/-! ## The runs of a table -/

namespace Table

variable {t : Table} {n : Nat} {r : SlotRun}

/-- A number whose slot has changed. -/
def Changed (t : Table) (n : Nat) : Prop := ∃ s, t.slot? n = some s ∧ s.dirty = true

theorem maximal_segments (t : Table) : SlotRun.Maximal 0 (t.toList.map Slot.dirty) t.segments :=
  SlotRun.maximal_ofMarks 0 _

theorem segments_eq_scan (t : Table) : t.segments = SlotRun.scan (t.toList.map Slot.dirty) :=
  (SlotRun.scan_eq_ofMarks _).symm

theorem mem_segments_iff : (∃ r ∈ t.segments, n ∈ r.numbers) ↔ t.Changed n := by
  rw [t.maximal_segments.mem_iff, Nat.sub_zero, List.getElem?_map, Option.map_eq_some_iff, Changed, slot?_eq_getElem?]
  exact and_iff_right (Nat.zero_le n)

theorem stop_le_size (h : r ∈ t.segments) : r.stop ≤ t.size := by
  have hpos := t.maximal_segments.nonempty r h
  have hlast : r.first + (r.length - 1) ∈ r.numbers := by
    refine SlotRun.mem_numbers.2 ⟨Nat.le_add_right _ _, ?_⟩
    rw [SlotRun.stop]
    omega
  obtain ⟨s, hs, -⟩ := mem_segments_iff.1 ⟨r, h, hlast⟩
  have hlt := lt_size_of_slot? hs
  rw [SlotRun.stop]
  omega

end Table

end PdfStore
