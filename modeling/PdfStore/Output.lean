import PdfStore.Bytes
import PdfStore.Operation

/-!
# Outputs

The bytes of a store go to memory, to a file, or to a file on a full device, which takes none. A cursor
keeps bytes back until there are more of them, and knows how many have been appended. It can be asked
for bytes at any place: it hands over what it has kept back, goes there, and comes back to the end,
whether or not all the bytes were found.
-/

namespace PdfStore

inductive Device
  | memory
  | file
  | full
  /-- A file that cannot be created. -/
  | absent
deriving DecidableEq, Repr

/-! ## Sinks -/

/-- The bytes on a device, and the place at which the next one is read or written. -/
structure Sink where
  bytes : Bytes
  place : Nat
deriving DecidableEq

namespace Sink

variable {s : Sink} {b : Bytes} {n : Nat}

def seek (s : Sink) (n : Nat) : Sink := { s with place := n }

/-- Writes over what stands at the place. If the place is behind the end, zeros fill the gap. -/
def write (s : Sink) (b : Bytes) : Sink :=
  ⟨(s.bytes.take s.place).rightpad s.place 0 ++ b ++ s.bytes.drop (s.place + b.length), s.place + b.length⟩

/-- Reads so many bytes. If there are fewer, all of them have been passed. -/
def read (s : Sink) (n : Nat) : Option Bytes × Sink :=
  let rest := s.bytes.drop s.place
  if rest.length < n then (none, s.seek (max s.place s.bytes.length))
  else (some (rest.take n), s.seek (s.place + n))

@[simp] theorem bytes_seek (s : Sink) (n : Nat) : (s.seek n).bytes = s.bytes := rfl

@[simp] theorem place_seek (s : Sink) (n : Nat) : (s.seek n).place = n := rfl

@[simp] theorem place_write (s : Sink) (b : Bytes) : (s.write b).place = s.place + b.length := rfl

/-- Behind the last byte, writing adds to the bytes. -/
theorem bytes_write (h : s.place = s.bytes.length) : (s.write b).bytes = s.bytes ++ b := by
  simp [write, h, List.rightpad]

@[simp] theorem bytes_read (s : Sink) (n : Nat) : (s.read n).2.bytes = s.bytes := by
  rw [read]
  split <;> rfl

theorem read_within (h : s.place + n ≤ s.bytes.length) : (s.read n).1 = some ((s.bytes.drop s.place).take n) := by
  rw [read, if_neg (by rw [List.length_drop]; omega)]

end Sink

/-! ## Cursors -/

/-- What an output leaves when it ends. -/
structure Output where
  device : Device
  content : Bytes
deriving DecidableEq

/-- A sink with the bytes that wait in front of it, and the number of bytes appended so far. -/
structure Cursor where
  device : Device
  sink : Sink
  buffer : Bytes
  position : Nat

namespace Cursor

/-- The number of bytes that are held back until there are more. -/
def bufferSize : Nat := 8192

/-- Hands bytes over to the device. -/
def pass (b : Bytes) : Operation Unit Cursor Unit := do
  let o ← get
  if o.device = .full && !b.isEmpty then throw ()
  set { o with sink := o.sink.write b }

/-- Hands over all bytes that wait. -/
def flush : Operation Unit Cursor Unit := do
  pass (← get).buffer
  modify fun o => { o with buffer := [] }

/-- Hands over what waits if so many bytes more find no room behind it. -/
def makeRoom (n : Nat) : Operation Unit Cursor Unit := do
  if bufferSize < (← get).buffer.length + n then flush

/-- Lets bytes wait behind the others. They pass the buffer by if they are as many as it holds. -/
def write (b : Bytes) : Operation Unit Cursor Unit := do
  makeRoom b.length
  if bufferSize ≤ b.length then pass b
  else modify fun o => { o with buffer := o.buffer ++ b }

/-- Appends bytes and answers where they begin. -/
def append (b : Bytes) : Operation Unit Cursor Nat := do
  let start := (← get).position
  write b
  modify fun o => { o with position := o.position + b.length }
  return start

/-- Reads bytes at a place, and goes back to the position before it answers or fails. -/
def readAt (offset length : Nat) : Operation Unit Cursor Bytes := do
  flush
  let o ← get
  let (found, sink) := (o.sink.seek offset).read length
  set { o with sink := sink.seek o.position }
  match found with
  | none => throw ()
  | some b => return b

/-- Hands over all bytes that wait, and gives the sink away. -/
def finish : Operation Unit Cursor Output := do
  flush
  let o ← get
  return ⟨o.device, o.sink.bytes⟩

/-! ## What has been appended -/

variable {α : Type} {o o' : Cursor} {b : Bytes}

/-- All bytes appended: those handed over, and those that wait. -/
def content (o : Cursor) : Bytes := o.sink.bytes ++ o.buffer

/-- The next byte goes behind the last one. -/
def AtEnd (o : Cursor) : Prop := o.sink.place = o.sink.bytes.length

/-- A cursor that is at its end and knows where it is. -/
structure Settled (o : Cursor) : Prop where
  atEnd : o.AtEnd
  position : o.position = o.content.length

/-- The cursor after all bytes that waited have been handed over. -/
def flushed (o : Cursor) : Cursor := { o with sink := ⟨o.content, o.content.length⟩, buffer := [] }

@[simp] theorem content_flushed (o : Cursor) : o.flushed.content = o.content := List.append_nil _

theorem Settled.flushed (h : o.Settled) : o.flushed.Settled :=
  ⟨rfl, by rw [content_flushed]; exact h.position⟩

theorem flushed_eq_self (h : o.AtEnd) (hb : o.buffer = []) : o.flushed = o := by
  obtain ⟨device, ⟨bytes, place⟩, buffer, position⟩ := o
  obtain rfl : place = bytes.length := h
  obtain rfl : buffer = [] := hb
  simp [flushed, content]

/-- Only a full device refuses bytes. -/
theorem pass_cases (h : o.AtEnd) (b : Bytes) :
    pass b o = .ok () { o with sink := ⟨o.sink.bytes ++ b, (o.sink.bytes ++ b).length⟩ } ∧
        (o.device = .full → b = []) ∨
      pass b o = .error () o ∧ o.device = .full := by
  have hsink : o.sink.write b = ⟨o.sink.bytes ++ b, (o.sink.bytes ++ b).length⟩ := by
    rw [List.length_append, ← h, ← Sink.bytes_write h]
    rfl
  rw [pass, Operation.bind_of_ok (Operation.get_apply o), hsink]
  split
  · rename_i hd
    exact Or.inr ⟨rfl, by simp_all⟩
  · rename_i hd
    exact Or.inl ⟨rfl, by simp_all⟩

theorem flush_cases (h : o.AtEnd) :
    flush o = .ok () o.flushed ∧ (o.device = .full → o.flushed = o) ∨
      flush o = .error () o ∧ o.device = .full := by
  rw [flush, Operation.bind_of_ok (Operation.get_apply o)]
  rcases pass_cases h o.buffer with ⟨hok, hb⟩ | ⟨herr, hd⟩
  · exact Or.inl ⟨Operation.bind_of_ok hok, fun hd => flushed_eq_self h (hb hd)⟩
  · exact Or.inr ⟨Operation.bind_of_error herr, hd⟩

/-- A cursor with more bytes at its end. -/
structure Longer (o : Cursor) (b : Bytes) (o' : Cursor) : Prop where
  device : o'.device = o.device
  content : o'.content = o.content ++ b
  atEnd : o'.AtEnd
  position : o'.position = o.position

/-- Afterwards there is room, or nothing waits. -/
theorem makeRoom_cases (h : o.AtEnd) (n : Nat) :
    (∃ o', makeRoom n o = .ok () o' ∧ o.Longer [] o' ∧ (o'.buffer.length + n ≤ bufferSize ∨ o'.buffer = []) ∧
      (o.device = .full → o' = o)) ∨ makeRoom n o = .error () o ∧ o.device = .full := by
  rw [makeRoom, Operation.bind_of_ok (Operation.get_apply o)]
  split
  · rcases flush_cases h with ⟨hok, hsame⟩ | ⟨herr, hd⟩
    · exact Or.inl ⟨_, hok, ⟨rfl, by simp, rfl, rfl⟩, Or.inr rfl, hsame⟩
    · exact Or.inr ⟨herr, hd⟩
  · rename_i hfits
    exact Or.inl ⟨o, rfl, ⟨rfl, (List.append_nil _).symm, h, rfl⟩, Or.inl (Nat.le_of_not_lt hfits), fun _ => rfl⟩

theorem write_cases (h : o.AtEnd) (b : Bytes) :
    (∃ o', write b o = .ok () o' ∧ o.Longer b o') ∨ write b o = .error () o ∧ o.device = .full := by
  rcases makeRoom_cases h b.length with ⟨o₁, hroom, h₁, hfits, hsame⟩ | ⟨herr, hd⟩
  · have hcontent : o.content = o₁.sink.bytes ++ o₁.buffer := by rw [← List.append_nil o.content, ← h₁.content, content]
    rw [write, Operation.bind_of_ok hroom]
    split
    · rename_i hlong
      rcases pass_cases h₁.atEnd b with ⟨hok, -⟩ | ⟨herr, hd⟩
      · -- Nothing waits, or the bytes would have overtaken what does.
        have hempty : o₁.buffer = [] := hfits.elim (fun hfits => List.eq_nil_of_length_eq_zero (by omega)) id
        refine Or.inl ⟨_, hok, h₁.device, ?_, rfl, h₁.position⟩
        rw [hcontent, content, hempty, List.append_nil, List.append_nil]
      · rw [h₁.device] at hd
        rw [herr, hsame hd]
        exact Or.inr ⟨rfl, hd⟩
    · refine Or.inl ⟨_, rfl, h₁.device, ?_, h₁.atEnd, h₁.position⟩
      rw [hcontent, List.append_assoc]
      rfl
  · exact Or.inr ⟨Operation.bind_of_error herr, hd⟩

theorem append_cases (h : o.Settled) (b : Bytes) :
    (∃ o', append b o = .ok o.position o' ∧ o'.Settled ∧ o'.device = o.device ∧ o'.content = o.content ++ b) ∨
      append b o = .error () o ∧ o.device = .full := by
  rw [append, Operation.bind_of_ok (Operation.get_apply o)]
  rcases write_cases h.atEnd b with ⟨o', hok, h'⟩ | ⟨herr, hd⟩
  · rw [Operation.bind_of_ok hok]
    refine Or.inl ⟨_, rfl, ⟨h'.atEnd, ?_⟩, h'.device, h'.content⟩
    have hlength : o'.content.length = o.content.length + b.length := by rw [h'.content, List.length_append]
    exact (congrArg (· + b.length) (h'.position.trans h.position)).trans hlength.symm
  · exact Or.inr ⟨Operation.bind_of_error herr, hd⟩

/-- Wherever a read has led, the cursor comes back to its end. -/
theorem seek_back (h : o.Settled) (offset length : Nat) :
    { o.flushed with sink := ((o.flushed.sink.seek offset).read length).2.seek o.flushed.position } = o.flushed := by
  have hsink : ((o.flushed.sink.seek offset).read length).2.seek o.flushed.position = o.flushed.sink := by
    rw [Sink.seek, Sink.bytes_read, show o.flushed.position = o.content.length from h.position]
    rfl
  rw [hsink]

/-- The bytes that stand at a place, if there are as many. -/
def bytesAt? (o : Cursor) (offset length : Nat) : Option Bytes :=
  (((⟨o.content, o.content.length⟩ : Sink).seek offset).read length).1

theorem readAt_of_flush (h : o.Settled) (hok : flush o = .ok () o.flushed) (offset length : Nat) :
    readAt offset length o = match o.bytesAt? offset length with
      | none => .error () o.flushed
      | some b => .ok b o.flushed := by
  rw [readAt, Operation.bind_of_ok hok, Operation.bind_of_ok (Operation.get_apply _)]
  have hset := seek_back h offset length
  have hbytes : o.bytesAt? offset length = ((o.flushed.sink.seek offset).read length).1 := rfl
  rw [hbytes]
  generalize (o.flushed.sink.seek offset).read length = answer at hset
  obtain ⟨found, sink⟩ := answer
  simp only at hset ⊢
  rw [hset]
  cases found <;> rfl

/-- Reading leaves the cursor at its end, with all bytes handed over, unless they are refused. -/
theorem readAt_cases (h : o.Settled) (offset length : Nat) :
    (∃ b, o.bytesAt? offset length = some b ∧ readAt offset length o = .ok b o.flushed) ∨
      o.bytesAt? offset length = none ∧ readAt offset length o = .error () o.flushed ∨
      readAt offset length o = .error () o ∧ o.device = .full := by
  rcases flush_cases h.atEnd with ⟨hok, -⟩ | ⟨herr, hd⟩
  · rw [readAt_of_flush h hok]
    cases o.bytesAt? offset length with
    | none => exact Or.inr (Or.inl ⟨rfl, rfl⟩)
    | some b => exact Or.inl ⟨b, rfl, rfl⟩
  · exact Or.inr (Or.inr ⟨Operation.bind_of_error herr, hd⟩)

/-- A read past the end fails, and the next byte still goes to the end. -/
example : (let o := (append [97, 98]).next ⟨.memory, ⟨[], 0⟩, [], 0⟩
    let o' := (append [99]).next ((readAt 1 5).next o)
    (((readAt 1 5).outcome o).isOk, o'.sink, o'.buffer, o'.position)) = (false, ⟨[97, 98], 2⟩, [99], 3) := by
  decide +kernel

theorem finish_cases (h : o.Settled) :
    finish o = .ok ⟨o.device, o.content⟩ o.flushed ∨ finish o = .error () o ∧ o.device = .full := by
  rcases flush_cases h.atEnd with ⟨hok, -⟩ | ⟨herr, hd⟩
  · exact Or.inl (Operation.bind_of_ok hok)
  · exact Or.inr ⟨Operation.bind_of_error herr, hd⟩

/-- An operation that leaves a settled cursor settled, also when it fails. -/
def Settles (x : Operation Unit Cursor α) : Prop := ∀ {o}, o.Settled → (x.next o).Settled

theorem settles_append (b : Bytes) : Settles (append b) := fun h => by
  rcases append_cases h b with ⟨o', hok, h', -⟩ | ⟨herr, -⟩
  · rwa [Operation.next_ok hok]
  · rwa [Operation.next_error herr]

theorem settles_readAt (offset length : Nat) : Settles (readAt offset length) := fun h => by
  rcases readAt_cases h offset length with ⟨b, -, hok⟩ | ⟨-, herr⟩ | ⟨herr, -⟩
  · rw [Operation.next_ok hok]
    exact h.flushed
  · rw [Operation.next_error herr]
    exact h.flushed
  · rwa [Operation.next_error herr]

theorem settles_finish : Settles finish := fun h => by
  rcases finish_cases h with hok | ⟨herr, -⟩
  · rw [Operation.next_ok hok]
    exact h.flushed
  · rwa [Operation.next_error herr]

end Cursor

/-! ## Cursors between operations -/

/-- A cursor that is at its end. -/
structure OutputCursor extends Cursor where
  settled : toCursor.Settled

namespace OutputCursor

variable {α : Type} {o : OutputCursor}

def create? : Device → Option OutputCursor
  | .absent => none
  | device => some ⟨⟨device, ⟨[], 0⟩, [], 0⟩, ⟨rfl, rfl⟩⟩

def ofCursor (x : Operation Unit Cursor α) (hx : Cursor.Settles x) : Operation Unit OutputCursor α := fun o =>
  match h : x o.toCursor with
  | .ok a c => .ok a ⟨c, Operation.next_ok h ▸ hx o.settled⟩
  | .error e c => .error e ⟨c, Operation.next_error h ▸ hx o.settled⟩

def append (b : Bytes) : Operation Unit OutputCursor Nat := ofCursor (Cursor.append b) (Cursor.settles_append b)

def readAt (offset length : Nat) : Operation Unit OutputCursor Bytes :=
  ofCursor (Cursor.readAt offset length) (Cursor.settles_readAt offset length)

def finish : Operation Unit OutputCursor Output := ofCursor Cursor.finish Cursor.settles_finish

/-- The cursor after all bytes that waited have been handed over. -/
def flushed (o : OutputCursor) : OutputCursor := ⟨o.toCursor.flushed, o.settled.flushed⟩

theorem position_eq (o : OutputCursor) : o.position = o.content.length := o.settled.position

variable {x : Operation Unit Cursor α} {hx : Cursor.Settles x}

theorem ofCursor_ok {a : α} {o' : OutputCursor} (h : x o.toCursor = .ok a o'.toCursor) : ofCursor x hx o = .ok a o' := by
  unfold ofCursor
  split
  · rename_i heq
    rw [h] at heq
    cases heq
    rfl
  · rename_i heq
    rw [h] at heq
    cases heq

theorem ofCursor_error {e : Unit} {o' : OutputCursor} (h : x o.toCursor = .error e o'.toCursor) :
    ofCursor x hx o = .error e o' := by
  unfold ofCursor
  split
  · rename_i heq
    rw [h] at heq
    cases heq
  · rename_i heq
    rw [h] at heq
    cases heq
    rfl

/-- Bytes are appended behind all others, or refused by a full device. -/
theorem append_cases (o : OutputCursor) (b : Bytes) :
    (∃ o', append b o = .ok o.position o' ∧ o'.device = o.device ∧ o'.content = o.content ++ b) ∨
      append b o = .error () o ∧ o.device = .full := by
  rcases Cursor.append_cases o.settled b with ⟨c, hok, hc, hd, hcontent⟩ | ⟨herr, hd⟩
  · exact Or.inl ⟨⟨c, hc⟩, ofCursor_ok hok, hd, hcontent⟩
  · exact Or.inr ⟨ofCursor_error herr, hd⟩

theorem readAt_cases (o : OutputCursor) (offset length : Nat) :
    (∃ b, o.bytesAt? offset length = some b ∧ readAt offset length o = .ok b o.flushed) ∨
      o.bytesAt? offset length = none ∧ readAt offset length o = .error () o.flushed ∨
      readAt offset length o = .error () o ∧ o.device = .full :=
  (Cursor.readAt_cases o.settled offset length).imp (fun ⟨b, hb, hok⟩ => ⟨b, hb, ofCursor_ok hok⟩)
    (Or.imp (fun ⟨hb, herr⟩ => ⟨hb, ofCursor_error herr⟩) fun ⟨herr, hd⟩ => ⟨ofCursor_error herr, hd⟩)

theorem readAt_some (hd : o.device ≠ .full) {offset length : Nat} {b : Bytes} (hb : o.bytesAt? offset length = some b) :
    readAt offset length o = .ok b o.flushed := by
  rcases readAt_cases o offset length with ⟨b', hb', hok⟩ | ⟨hb', -⟩ | ⟨-, hfull⟩
  · rw [hb] at hb'
    cases hb'
    exact hok
  · rw [hb] at hb'
    cases hb'
  · exact absurd hfull hd

theorem readAt_none (hd : o.device ≠ .full) {offset length : Nat} (hb : o.bytesAt? offset length = none) :
    readAt offset length o = .error () o.flushed := by
  rcases readAt_cases o offset length with ⟨b', hb', -⟩ | ⟨-, herr⟩ | ⟨-, hfull⟩
  · rw [hb] at hb'
    cases hb'
  · exact herr
  · exact absurd hfull hd

theorem readAt_within (hd : o.device ≠ .full) {offset length : Nat} (hw : offset + length ≤ o.content.length) :
    readAt offset length o = .ok ((o.content.drop offset).take length) o.flushed :=
  readAt_some hd (Sink.read_within hw)

theorem finish_cases (o : OutputCursor) :
    finish o = .ok ⟨o.device, o.content⟩ o.flushed ∨ finish o = .error () o ∧ o.device = .full :=
  (Cursor.finish_cases o.settled).imp ofCursor_ok fun ⟨herr, hd⟩ => ⟨ofCursor_error herr, hd⟩

end OutputCursor

end PdfStore
