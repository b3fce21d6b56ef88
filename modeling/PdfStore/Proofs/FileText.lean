import PdfStore.Proofs.SlotLines
import PdfStore.Store.Close

/-!
# The text of a file

The parts of a file that a store leaves, written out: the header, an object between its two lines, the table with a line
for every entry, and the trailer. The table is read back from the bytes that begin with it (`FileText.entries?`).
-/

namespace PdfStore.FileText

variable {c : Bytes} {id : ObjectId} {slots : List Slot}

/-! ## What stands in a file -/

def header (config : Config) : Bytes :=
  Bytes.ofString ("%PDF-" ++ config.version ++ "\n") ++
    if config.binaryMarker then [37, 226, 227, 207, 211, 10] else []

/-- Serialized content with the line that names the object before it, and the line that ends the object behind it. -/
def object (id : ObjectId) (content : Bytes) : Bytes :=
  Bytes.ofString s!"{id.number.toNat} {id.generation.toNat} obj\n" ++ content ++ Bytes.ofString "\nendobj\n"

/-- A number with zeros in front. -/
def padded (width n : Nat) : String := String.ofList ((toString n).toList.leftpad width '0')

def entry (s : Slot) : String :=
  s!"{padded 10 s.offset} {padded 5 s.generation.toNat} " ++ if s.inUse then "n \n" else "f \n"

/-- The table of all entries from number zero on. -/
def table (slots : List Slot) : String := s!"xref\n0 {slots.length}\n" ++ String.join (slots.map entry)

def reference (id : ObjectId) : String := s!"{id.number.toNat} {id.generation.toNat} R"

/-- What stands behind the table of a file, which begins at `start`. -/
def trailer (size : Nat) (root : ObjectId) (info : Option ObjectId) (start : Nat) : String :=
  match info with
  | none => s!"trailer\n<</Size {size} /Root {reference root}>>\nstartxref\n{start}\n%%EOF\n"
  | some info =>
    s!"trailer\n<</Size {size} /Root {reference root} /Info {reference info}>>\nstartxref\n{start}\n%%EOF\n"

theorem header_eq (config : Config) : config.header = header config := rfl

theorem object_eq (id : ObjectId) (c : Bytes) : Store.body id c = object id c := by
  have hline : id.header ++ "\n" = s!"{id.number.toNat} {id.generation.toNat} obj\n" := by
    apply String.toList_inj.1
    simp only [ObjectId.header, String.toList_append, List.append_assoc]
    rfl
  rw [Store.body, hline, object]

theorem toList_padded (width n : Nat) : (padded width n).toList = paddedDigits width n := by
  rw [padded, String.toList_ofList, Text.toList_toString, List.leftpad, paddedDigits]

theorem entry_eq (s : Slot) : s.line = entry s := by
  apply String.toList_inj.1
  simp only [Slot.toList_line, entry, String.toList_append, toString, toList_padded, List.append_assoc]
  cases h : s.inUse <;> simp [Slot.kind, h]

theorem token_eq (id : ObjectId) : id.token = reference id := by
  rw [ObjectId.token, reference]

theorem trailer_eq (size : Nat) (root : ObjectId) (info : Option ObjectId) (start : Nat) :
    Store.trailer size root info start = trailer size root info start := by
  unfold Store.trailer trailer
  cases info <;> simp only [token_eq, String.append_assoc, String.append_empty]

/-! ## Reading the table -/

/-- The characters of ASCII text. -/
def chars (b : Bytes) : List Char := b.map fun x => Char.ofNat x.toNat

/-- Reads the columns of so many entries. -/
def columns? : Nat → List (List Char) → Option (List Slot)
  | 0, _ => some []
  | k + 1, offset :: generation :: kind :: ws => do
    let s ← Slot.ofColumns? offset generation kind
    let slots ← columns? k ws
    return s :: slots
  | _ + 1, _ => none

/-- Reads the table with which bytes begin. -/
def entries? (b : Bytes) : Option (List Slot) :=
  match Text.words (chars b) with
  | ['x', 'r', 'e', 'f'] :: ['0'] :: count :: ws => do columns? (← Text.digits? count) ws
  | _ => none

theorem chars_append (b b' : Bytes) : chars (b ++ b') = chars b ++ chars b' := List.map_append

theorem chars_utf8EncodeChar {c : Char} (h : c.val ≤ 127) : chars (String.utf8EncodeChar c) = [c] := by
  have hval : c.val.toUInt8.toNat = c.toNat := by
    rw [UInt32.toNat_toUInt8]
    exact Nat.mod_eq_of_lt (Nat.lt_of_le_of_lt (UInt32.le_iff_toNat_le.1 h) (by decide))
  rw [String.utf8EncodeChar_eq_singleton (Char.utf8Size_eq_one_iff.2 h), chars, List.map_singleton, hval, Char.ofNat_toNat]

theorem chars_ofString {s : String} (h : ∀ c ∈ s.toList, c.val ≤ 127) : chars (Bytes.ofString s) = s.toList := by
  rw [Bytes.ofString]
  generalize s.toList = cs at h
  induction cs with
  | nil => rfl
  | cons c cs ih =>
      obtain ⟨hc, hcs⟩ := List.forall_mem_cons.1 h
      rw [List.flatMap_cons, chars_append, chars_utf8EncodeChar hc, ih hcs, List.singleton_append]

theorem columns?_lines (slots : List Slot) (rest : List Char) :
    columns? slots.length (Text.words (slots.flatMap (fun s => s.line.toList) ++ rest)) = some (slots.map Slot.listed) := by
  induction slots with
  | nil => rfl
  | cons s slots ih =>
      rw [List.length_cons, List.flatMap_cons, List.append_assoc, Slot.words_line, columns?, Slot.ofColumns?_line, ih]
      rfl

theorem toList_table (slots : List Slot) : (table slots).toList = ['x', 'r', 'e', 'f'] ++ '\n' :: (['0'] ++ ' ' ::
    ((toString slots.length).toList ++ '\n' :: slots.flatMap fun s => s.line.toList)) := by
  have hlines : slots.map entry = slots.map Slot.line := List.map_congr_left fun s _ => (entry_eq s).symm
  rw [table, hlines]
  simp only [String.toList_append, String.toList_join, List.flatMap_map, List.append_assoc]
  rfl

theorem table_eq (slots : List Slot) :
    "xref\n" ++ (s!"0 {slots.length}\n" ++ String.join (slots.map Slot.line)) = table slots := by
  apply String.toList_inj.1
  rw [toList_table]
  simp only [String.toList_append, String.toList_join, List.flatMap_map, List.append_assoc]
  rfl

/-- A table does not tell which of its slots have changed. -/
theorem table_listed (slots : List Slot) : table (slots.map Slot.listed) = table slots := by
  rw [table, table, List.length_map, List.map_map]
  rfl

theorem isAscii_table (slots : List Slot) : ∀ c ∈ (table slots).toList, c.val ≤ 127 := by
  simp only [toList_table, List.mem_append, List.mem_cons, List.mem_flatMap, List.not_mem_nil, or_false]
  rintro c ((rfl | rfl | rfl | rfl) | rfl | rfl | rfl | hc | rfl | ⟨s, -, hc⟩)
  case inr.inr.inr.inr.inl => exact isAscii_of_isDigit (Text.isDigit_of_mem_toList c hc)
  case inr.inr.inr.inr.inr.inr => exact s.isAscii_line c hc
  all_goals decide

theorem entries?_table (slots : List Slot) (rest : Bytes) :
    entries? (Bytes.ofString (table slots) ++ rest) = some (slots.map Slot.listed) := by
  have hxref : Text.IsWord ['x', 'r', 'e', 'f'] := by simp [Text.IsWord, Text.isBlank]
  have hzero : Text.IsWord ['0'] := by simp [Text.IsWord, Text.isBlank]
  have hchars : chars (Bytes.ofString (table slots) ++ rest) = ['x', 'r', 'e', 'f'] ++ '\n' :: (['0'] ++ ' ' ::
      ((toString slots.length).toList ++ '\n' :: (slots.flatMap (fun s => s.line.toList) ++ chars rest))) := by
    simp [chars_append, chars_ofString (isAscii_table slots), toList_table]
  rw [entries?, hchars, Text.words_word_blank hxref rfl, Text.words_word_blank hzero rfl,
    Text.words_word_blank (Text.isWord_toString _) rfl]
  simp only [Text.toList_toString, Text.digits?_toDigits]
  exact columns?_lines slots (chars rest)

end PdfStore.FileText
