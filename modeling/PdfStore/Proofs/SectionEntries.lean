import PdfStore.Proofs.Closing
import PdfStore.Proofs.SlotLines

/-!
# The entries of a section

A section is read back segment by segment: a header tells the number of the first slot and how many lines follow
(`Table.readSection?`). What is read are the changed slots of the table with their numbers, each of them once.
-/

namespace PdfStore

namespace Table

variable {t : Table} {r : SlotRun} {n : Nat} {rest : List Char}

/-! ## Reading a section -/

/-- Reads words of a section of which `k` more lines belong to a segment that has come to slot `n`. -/
def readEntries? : Nat → Nat → List (List Char) → Option (List (Nat × Slot))
  | _, 0, [] => some []
  | _, 0, first :: length :: ws => do
    let n ← Text.digits? first
    let k ← Text.digits? length
    readEntries? n k ws
  | n, k + 1, offset :: generation :: kind :: ws => do
    let s ← Slot.ofColumns? offset generation kind
    let entries ← readEntries? (n + 1) k ws
    return (n, s) :: entries
  | _, _, _ => none

def readSection? (text : String) : Option (List (Nat × Slot)) :=
  match Text.words text.toList with
  | ['x', 'r', 'e', 'f'] :: ws => readEntries? 0 0 ws
  | _ => none

/-- A number with what its line tells of the slot. -/
def entry (t : Table) (n : Nat) : Nat × Slot := (n, ((t.slot? n).getD default).listed)

/-- The changed slots with their numbers. -/
def changedEntries (t : Table) : List (Nat × Slot) :=
  t.toList.zipIdx.filterMap fun (s, n) => if s.dirty then some (n, s.listed) else none

theorem readEntries?_line (s : Slot) (n k : Nat) (rest : List Char) :
    readEntries? n (k + 1) (Text.words (s.line.toList ++ rest)) =
      (readEntries? (n + 1) k (Text.words rest)).map ((n, s.listed) :: ·) := by
  rw [Slot.words_line, readEntries?, Slot.ofColumns?_line]
  cases readEntries? (n + 1) k (Text.words rest) <;> rfl

theorem readEntries?_lines (f : Nat → Slot) (n k : Nat) (rest : List Char) :
    readEntries? n k (Text.words ((List.range' n k).flatMap (fun n => (f n).line.toList) ++ rest)) =
      (readEntries? (n + k) 0 (Text.words rest)).map ((List.range' n k).map (fun n => (n, (f n).listed)) ++ ·) := by
  induction k generalizing n with
  | zero => exact (Option.map_id' (x := readEntries? n 0 (Text.words rest))).symm
  | succ k ih =>
      rw [List.range'_succ, List.flatMap_cons, List.append_assoc, readEntries?_line, ih, Nat.add_right_comm, Option.map_map]
      rfl

theorem toList_segmentText (t : Table) (r : SlotRun) : (t.segmentText r).toList =
    (toString r.first).toList ++ ' ' :: ((toString r.length).toList ++ '\n' ::
      r.numbers.flatMap fun n => ((t.slot? n).getD default).line.toList) := by
  simp only [segmentText, String.toList_append, String.toList_join, List.flatMap_map, List.append_assoc]
  rfl

theorem readEntries?_segment (t : Table) (r : SlotRun) (m : Nat) (rest : List Char) :
    readEntries? m 0 (Text.words ((t.segmentText r).toList ++ rest)) =
      (readEntries? r.stop 0 (Text.words rest)).map (r.numbers.map t.entry ++ ·) := by
  have htext : (t.segmentText r).toList ++ rest = (toString r.first).toList ++ ' ' :: ((toString r.length).toList ++
      '\n' :: (r.numbers.flatMap (fun n => ((t.slot? n).getD default).line.toList) ++ rest)) := by
    simp [toList_segmentText]
  rw [htext, Text.words_word_blank (Text.isWord_toString _) rfl, Text.words_word_blank (Text.isWord_toString _) rfl,
    readEntries?, Text.toList_toString, Text.toList_toString, Text.digits?_toDigits, Text.digits?_toDigits]
  exact readEntries?_lines (fun n => (t.slot? n).getD default) r.first r.length rest

theorem readEntries?_segments (t : Table) (runs : List SlotRun) (m : Nat) :
    readEntries? m 0 (Text.words (runs.flatMap fun r => (t.segmentText r).toList)) =
      some (runs.flatMap fun r => r.numbers.map t.entry) := by
  induction runs generalizing m with
  | nil => rfl
  | cons r runs ih =>
      rw [List.flatMap_cons, readEntries?_segment, ih]
      rfl

/-- The entries of the segments are those of the changed slots. -/
theorem entries_segments (t : Table) :
    (t.segments.flatMap fun r => r.numbers.map t.entry) = t.changedEntries := by
  have hmarked : t.segments.flatMap SlotRun.numbers = SlotRun.marked 0 (t.toList.map Slot.dirty) :=
    t.maximal_segments.numbers_eq
  rw [← List.map_flatMap, hmarked, SlotRun.marked, List.zipIdx_map, List.filterMap_map, List.map_filterMap, changedEntries]
  refine List.filterMap_congr ?_
  rintro ⟨s, n⟩ hmem
  have hs : t.slot? n = some s := by
    rw [slot?_eq_getElem?]
    exact List.mk_mem_zipIdx_iff_getElem?.1 hmem
  cases hd : s.dirty with
  | false => simp [hd]
  | true => simp [hd, entry, hs]

theorem readSection?_written (t : Table) : readSection? t.written = some t.changedEntries := by
  have hword : Text.IsWord ['x', 'r', 'e', 'f'] := by simp [Text.IsWord, Text.isBlank]
  have htext : t.written.toList =
      ['x', 'r', 'e', 'f'] ++ '\n' :: t.segments.flatMap fun r => (t.segmentText r).toList := by
    simp only [written, String.toList_append, String.toList_join, List.flatMap_map]
    rfl
  rw [readSection?, htext, Text.words_word_blank hword rfl]
  exact (readEntries?_segments t t.segments 0).trans (congrArg some (entries_segments t))

/-- The numbers stand in ascending order, each of them once. -/
theorem pairwise_changedEntries (t : Table) : t.changedEntries.Pairwise fun e e' => e.1 < e'.1 := by
  have hnumbers : (t.toList.zipIdx.map Prod.snd).Pairwise (· < ·) := by
    rw [List.zipIdx_map_snd]
    exact List.pairwise_lt_range' 1 Nat.one_pos
  refine (List.pairwise_map.1 hnumbers).filterMap _ fun e e' hlt b hb b' hb' => ?_
  obtain ⟨-, hb⟩ := Option.ite_none_right_eq_some.1 hb
  obtain ⟨-, hb'⟩ := Option.ite_none_right_eq_some.1 hb'
  rw [← Option.some.inj hb, ← Option.some.inj hb']
  exact hlt

theorem mem_changedEntries {s : Slot} : (n, s) ∈ t.changedEntries ↔
    ∃ s', t.slot? n = some s' ∧ s'.dirty = true ∧ s = s'.listed := by
  rw [changedEntries, List.mem_filterMap]
  constructor
  · rintro ⟨⟨s', m⟩, hmem, h⟩
    obtain ⟨hd, h⟩ := Option.ite_none_right_eq_some.1 h
    obtain ⟨rfl, rfl⟩ := Prod.mk.inj (Option.some.inj h)
    exact ⟨s', (slot?_eq_getElem? ..).trans (List.mk_mem_zipIdx_iff_getElem?.1 hmem), hd, rfl⟩
  · rintro ⟨s', hs, hd, rfl⟩
    rw [slot?_eq_getElem?] at hs
    exact ⟨(s', n), List.mk_mem_zipIdx_iff_getElem?.2 hs, if_pos hd⟩

end Table

/-! ## Closing -/

theorem Store.section_of_close {st : Store} {report : CloseReport} (h : st.close = .ok report) :
    report.segments = st.table.segments.length ∧
      Bytes.ofString st.table.written <+: report.output.content.drop report.offset := by
  obtain ⟨catalog, -, -, rfl⟩ := close_ok h
  refine ⟨rfl, ?_⟩
  simp only [file, position_eq, List.append_assoc, List.drop_left]
  exact List.prefix_append _ _

namespace Table

/-- The segments of a table are the maximal runs of its changed slots, as one pass over the slots finds them, and the
section that is emitted for them when a store is closed tells of every changed slot once and of no other one. -/
theorem segments_of_changed (t : Table) :
    (∀ r ∈ t.segments, 1 ≤ r.length ∧ r.first + r.length ≤ t.size ∧
      ∀ s, t.slot? (r.first + r.length) = some s → s.dirty = false) ∧
    t.segments.Pairwise (fun r r' => r.first + r.length < r'.first) ∧
    (∀ n, (∃ r ∈ t.segments, r.first ≤ n ∧ n < r.first + r.length) ↔ ∃ s, t.slot? n = some s ∧ s.dirty = true) ∧
    t.segments = SlotRun.scan (t.toList.map Slot.dirty) ∧
    (∃ entries, readSection? t.written = some entries ∧ entries.Pairwise (fun e e' => e.1 < e'.1) ∧
      ∀ n s, (n, s) ∈ entries ↔ ∃ s', t.slot? n = some s' ∧ s'.dirty = true ∧ s = s'.listed) ∧
    ∀ (st : Store) (report : CloseReport), st.table = t → st.close = .ok report →
      report.segments = t.segments.length ∧ Bytes.ofString t.written <+: report.output.content.drop report.offset := by
  have hmaximal := t.maximal_segments
  have hmem : ∀ n, (∃ r ∈ t.segments, r.first ≤ n ∧ n < r.first + r.length) ↔ t.Changed n := fun n => by
    simp only [← mem_segments_iff, SlotRun.mem_numbers, SlotRun.stop]
  refine ⟨fun r hr => ⟨hmaximal.nonempty r hr, stop_le_size hr, fun s hs => ?_⟩, hmaximal.apart, hmem,
    t.segments_eq_scan, ⟨_, t.readSection?_written, t.pairwise_changedEntries, fun n s => mem_changedEntries⟩, ?_⟩
  · cases hd : s.dirty with
    | false => rfl
    | true =>
        obtain ⟨r', hr', hstop⟩ := mem_segments_iff.2 ⟨s, hs, hd⟩
        exact absurd hstop (hmaximal.toSeparate.stop_not_mem hr r' hr')
  · rintro st report rfl h
    exact Store.section_of_close h

/-- Of six slots the second, the third and the fifth have not changed. -/
theorem segments_of_changed_with_gaps : ∃ (st : Store) (report : CloseReport),
    st.table.toList.map Slot.dirty = [true, false, false, true, false, true] ∧ st.close = .ok report ∧
      (∃ r ∈ st.table.segments, r.first ≤ 3 ∧ 3 < r.first + r.length) ∧ report.segments = 3 ∧
      (∃ entries, readSection? st.table.written = some entries ∧ (3, ⟨45, 0, true, false⟩) ∈ entries ∧
        ∀ s, (4, s) ∉ entries) ∧
      Bytes.ofString st.table.written <+: report.output.content.drop report.offset := by
  obtain ⟨first, hfirst, -⟩ := ofCluster_ok (Nat.le_refl 2) 2
  let calls : List Call := [.reserve, .reserve, .reserve, .reserve, .reserve, .setOffset ⟨1, 0⟩ 15,
    .setOffset ⟨2, 0⟩ 25, .setOffset ⟨3, 0⟩ 45, .setOffset ⟨4, 0⟩ 65, .setOffset ⟨5, 0⟩ 85]
  let settle (t : Table) (n : Nat) : Table := (update n fun s => { s with dirty := false }).next t
  let table (t : Table) : Table := [1, 2, 4].foldl settle (Operation.after perform calls t)
  let slots : List Slot := [⟨0, 2, false, true⟩, ⟨15, 0, true, false⟩, ⟨25, 0, true, false⟩, ⟨45, 0, true, true⟩,
    ⟨65, 0, true, false⟩, ⟨85, 0, true, true⟩]
  have hseen : (ofCluster 2 2).toOption.map (fun t => ((table t).toList, (table t).pending)) = some (slots, []) := by
    decide +kernel
  rw [hfirst] at hseen
  obtain ⟨hlist, hpending⟩ := Prod.mk.inj (Option.some.inj hseen)
  -- What the calls lead to is not to be computed again.
  generalize table first = t at hlist hpending
  have hslot : ∀ n, t.slot? n = slots[n]? := fun n => by rw [slot?_eq_getElem?, hlist]
  have hsegments : t.segments = [⟨0, 1⟩, ⟨3, 1⟩, ⟨5, 1⟩] := by
    rw [segments, hlist]
    rfl
  let output : OutputCursor := ⟨⟨.memory, ⟨[], 0⟩, [], 0⟩, ⟨rfl, rfl⟩⟩
  let st : Store := ⟨⟨"1.4", false, 2, 2⟩, t, output, .empty, some ⟨5, 0⟩, none⟩
  have hclosable : st.checkClosable = .ok () := by simp only [Store.checkClosable, st, hpending]
  obtain ⟨report, hclose⟩ : ∃ report, st.close = .ok report := Store.close_of_closable rfl hclosable
  obtain ⟨-, -, hmem, -, ⟨entries, hread, -, hentries⟩, hfile⟩ := segments_of_changed t
  obtain ⟨hcount, hprefix⟩ := hfile st _ rfl hclose
  refine ⟨st, report, congrArg (List.map Slot.dirty) hlist, hclose, (hmem 3).2 ⟨_, hslot 3, rfl⟩, hcount.trans ?_,
    ⟨entries, hread, (hentries 3 _).2 ⟨_, hslot 3, rfl, rfl⟩, fun s hs => ?_⟩, hprefix⟩
  · rw [hsegments]
    rfl
  · obtain ⟨s', hs', hdirty, -⟩ := (hentries 4 s).1 hs
    rw [hslot 4] at hs'
    cases hs'
    cases hdirty

end Table

end PdfStore
