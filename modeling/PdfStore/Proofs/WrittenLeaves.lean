import Mathlib.Data.List.Basic
import PdfStore.Proofs.OrderedMaps
import PdfStore.Proofs.WrittenForm

/-!
# The leaves that are written

The objects in an object that hold no others are met in a fixed order when it is written
(`Object.writtenLeaves`); the entry `Length` of a stream gives way to the length of its data. Whether writing
fails, and with which error, is a matter of these leaves.
-/

namespace PdfStore

variable {table : Option ReferenceTable} {o : Object} {ts : List Token}

namespace Object

/-! ## Objects and their parts -/

/-- Neither an array nor a dictionary nor a stream. -/
def isSingle : Object → Bool
  | array _ | dictionary _ | stream _ _ => false
  | _ => true

theorem sizeOf_value_lt {e : Name × Object} {entries : List (Name × Object)} (h : e ∈ entries) :
    sizeOf e.2 < sizeOf entries := by
  have := List.sizeOf_lt_of_mem h
  obtain ⟨k, o⟩ := e
  simp only [Prod.mk.sizeOf_spec] at this ⊢
  omega

/-- What holds of an object if it holds of its parts holds of all objects. -/
@[elab_as_elim]
theorem induct {P : Object → Prop} (single : ∀ o, o.isSingle = true → P o)
    (array : ∀ items, (∀ o ∈ items, P o) → P (array items))
    (dictionary : ∀ entries, (∀ e ∈ entries, P e.2) → P (dictionary ⟨entries⟩))
    (stream : ∀ entries data, (∀ e ∈ entries, P e.2) → P (stream ⟨entries⟩ data)) : (o : Object) → P o
  | .array items => array items fun o _ => induct single array dictionary stream o
  | .dictionary ⟨entries⟩ => dictionary entries fun e _ => induct single array dictionary stream e.2
  | .stream ⟨entries⟩ data => stream entries data fun e _ => induct single array dictionary stream e.2
  | .null => single _ rfl
  | .boolean _ => single _ rfl
  | .number _ => single _ rfl
  | .name _ => single _ rfl
  | .string _ => single _ rfl
  | .indirect _ => single _ rfl
termination_by o => sizeOf o
decreasing_by
  · have := List.sizeOf_lt_of_mem ‹o ∈ items›
    simp only [Object.array.sizeOf_spec]
    omega
  · have := sizeOf_value_lt ‹e ∈ entries›
    simp only [Object.dictionary.sizeOf_spec, OrderedMap.mk.sizeOf_spec]
    omega
  · have := sizeOf_value_lt ‹e ∈ entries›
    simp only [Object.stream.sizeOf_spec, OrderedMap.mk.sizeOf_spec]
    omega

/-! ## Tokens of the parts -/

theorem itemTokens_eq (items : List Object) : itemTokens items = items.map tokens := by
  induction items with
  | nil => rfl
  | cons o rest ih => rw [itemTokens, ih, List.map_cons]

theorem mapTokens_eq (m : Dictionary) : mapTokens m = m.mapValues tokens := by
  obtain ⟨entries⟩ := m
  simp only [mapTokens, OrderedMap.mapValues, OrderedMap.mk.injEq]
  induction entries with
  | nil => rfl
  | cons e rest ih => rw [listTokens, ih, List.map_cons]

/-- The entries that are written of a stream: the length of its data, and the objects under other keys. -/
def streamEntries (m : Dictionary) : OrderedMap Name (Option Object) := (m.mapValues some).insert "Length" none

theorem mem_streamEntries {m : Dictionary} {k : Name} (h : (k, some o) ∈ (streamEntries m).entries) :
    (k, o) ∈ m.entries := by
  rcases OrderedMap.mem_insertEntry h with heq | hmem
  · cases heq
  · obtain ⟨e, he, heq⟩ := List.mem_map.1 hmem
    cases heq
    exact he

/-- What stands for each entry of a stream, if `length` stands for the length of the data. -/
theorem insert_mapValues {α : Type} (f : Object → α) (length : α) (m : Dictionary) :
    (m.mapValues f).insert "Length" length = (streamEntries m).mapValues (·.elim length f) := by
  rw [streamEntries, OrderedMap.mapValues_insert, OrderedMap.mapValues, OrderedMap.mapValues, OrderedMap.mapValues,
    List.map_map]
  rfl

/-- The tokens of what stands under one key of a stream. -/
def valueTokens (data : Bytes) (value : Option Object) : List Token :=
  value.elim [.ofString (toString data.length)] tokens

theorem tokens_stream (m : Dictionary) (data : Bytes) : (stream m data).tokens =
    dictionaryTokens ((streamEntries m).mapValues (valueTokens data)) ++
      [.ofString "\nstream\n", .text data, .ofString "\nendstream"] := by
  rw [tokens, mapTokens_eq, streamTokens, insert_mapValues]
  rfl

/-! ## Leaves -/

mutual

/-- The leaves that are written, in order, each as often as it is written. -/
def writtenLeaves : Object → List Object
  | array items => itemLeaves items
  | dictionary entries => (mapLeaves entries).values.flatten
  | stream entries data => ((mapLeaves entries).insert "Length" [integer (.ofNat data.length)]).values.flatten
  | o => [o]

def itemLeaves : List Object → List Object
  | [] => []
  | o :: rest => writtenLeaves o ++ itemLeaves rest

def mapLeaves : Dictionary → OrderedMap Name (List Object)
  | ⟨entries⟩ => ⟨entryLeaves entries⟩

def entryLeaves : List (Name × Object) → List (Name × List Object)
  | [] => []
  | (k, o) :: rest => (k, writtenLeaves o) :: entryLeaves rest

end

theorem writtenLeaves_single (h : o.isSingle = true) : o.writtenLeaves = [o] := by
  cases o with
  | array items => cases h
  | dictionary entries => cases h
  | stream entries data => cases h
  | _ => rfl

theorem writtenLeaves_array (items : List Object) : (array items).writtenLeaves = items.flatMap writtenLeaves := by
  rw [writtenLeaves]
  induction items with
  | nil => rfl
  | cons o rest ih => rw [itemLeaves, ih, List.flatMap_cons]

theorem mapLeaves_eq (m : Dictionary) : mapLeaves m = m.mapValues writtenLeaves := by
  obtain ⟨entries⟩ := m
  simp only [mapLeaves, OrderedMap.mapValues, OrderedMap.mk.injEq]
  induction entries with
  | nil => rfl
  | cons e rest ih => rw [entryLeaves, ih, List.map_cons]

theorem flatten_values_mapValues {κ α β : Type} (f : α → List β) (m : OrderedMap κ α) :
    (m.mapValues f).values.flatten = m.entries.flatMap fun e => f e.2 := by
  rw [OrderedMap.values, OrderedMap.mapValues, List.map_map, List.flatMap_def]
  rfl

theorem writtenLeaves_dictionary (m : Dictionary) :
    (dictionary m).writtenLeaves = m.entries.flatMap fun e => e.2.writtenLeaves := by
  rw [writtenLeaves, mapLeaves_eq, flatten_values_mapValues]

/-- The leaves of what stands under one key of a stream. -/
def valueLeaves (data : Bytes) (value : Option Object) : List Object :=
  value.elim [integer (.ofNat data.length)] writtenLeaves

theorem writtenLeaves_stream (m : Dictionary) (data : Bytes) :
    (stream m data).writtenLeaves = (streamEntries m).entries.flatMap fun e => valueLeaves data e.2 := by
  rw [writtenLeaves, mapLeaves_eq, insert_mapValues, flatten_values_mapValues]
  rfl

/-! ## Faults -/

/-- Why a leaf cannot be written: it is a real that is not finite, or a reference that a table does not bind. -/
def fault? (table : Option ReferenceTable) : Object → Option ObjectError
  | number (.real x) => if x.isFinite then none else some (.nonFinite x)
  | indirect r =>
    match table with
    | none => none
    | some identity => if (identity r).isSome then none else some (.unbound r)
  | _ => none

/-- The error of a leaf names it. -/
theorem fault?_eq_some {e : ObjectError} : o.fault? table = some e ↔
    (∃ x, o = real x ∧ x.isFinite = false ∧ e = .nonFinite x) ∨
      ∃ r identity, o = indirect r ∧ table = some identity ∧ identity r = none ∧ e = .unbound r := by
  constructor
  · intro h
    unfold fault? at h
    split at h
    · split at h
      · cases h
      · cases h
        exact Or.inl ⟨_, rfl, by simp_all, rfl⟩
    · split at h
      · cases h
      · split at h
        · cases h
        · cases h
          exact Or.inr ⟨_, _, rfl, rfl, by simp_all, rfl⟩
    · cases h
  · rintro (⟨x, rfl, hx, rfl⟩ | ⟨r, identity, rfl, rfl, hr, rfl⟩)
    · simp [real, fault?, hx]
    · simp [fault?, hr]

end Object

/-- Why a token cannot be written. -/
def Token.fault? (table : Option ReferenceTable) (t : Token) : Option ObjectError :=
  match t.bytes table with
  | .ok _ => none
  | .error e => some e

theorem Token.fault?_eq_none {t : Token} : t.fault? table = none ↔ ∃ b, t.bytes table = .ok b := by
  rw [fault?]
  cases t.bytes table <;> simp

theorem failure_writeTokens (table : Option ReferenceTable) (ts : List Token) :
    (writeTokens table ts).failure = ts.findSome? (Token.fault? table) := by
  induction ts with
  | nil => rfl
  | cons t ts ih =>
      rw [writeTokens, List.findSome?_cons, Token.fault?]
      cases t.bytes table with
      | error e => rfl
      | ok b => exact ih

namespace Object

/-- A leaf is written as one token. -/
theorem token_of_single (h : o.isSingle = true) :
    ∃ t, o.tokens = [t] ∧ ∀ table, Token.fault? table t = o.fault? table := by
  cases o with
  | array items => cases h
  | dictionary entries => cases h
  | stream entries data => cases h
  | null => exact ⟨_, rfl, fun _ => rfl⟩
  | boolean b => exact ⟨_, rfl, fun _ => rfl⟩
  | name n => exact ⟨_, rfl, fun _ => rfl⟩
  | string s =>
      refine ⟨_, rfl, fun _ => ?_⟩
      rw [stringToken]
      cases s.form <;> rfl
  | number n =>
      refine ⟨_, rfl, fun table => ?_⟩
      cases n with
      | integer n => rfl
      | real x =>
          simp only [numberToken, Token.fault?, Token.bytes, fault?]
          cases x.isFinite <;> rfl
  | indirect r =>
      refine ⟨_, rfl, fun table => ?_⟩
      cases table with
      | none => rfl
      | some identity =>
          simp only [Token.fault?, Token.bytes, fault?]
          cases identity r <;> rfl

/-- The faults of an object are those of its leaves. -/
theorem faults_tokens (table : Option ReferenceTable) (o : Object) :
    o.tokens.filterMap (Token.fault? table) = o.writtenLeaves.filterMap (fault? table) := by
  have htext : ∀ b, Token.fault? table (.text b) = none := fun _ => rfl
  induction o using induct with
  | single o h =>
      obtain ⟨t, ht, hfault⟩ := token_of_single h
      rw [ht, writtenLeaves_single h, List.filterMap_cons, hfault]
      rfl
  | array items ih =>
      rw [tokens, itemTokens_eq, filterMap_arrayTokens htext, List.flatMap_map, writtenLeaves_array,
        List.filterMap_flatMap]
      exact List.flatMap_congr ih
  | dictionary entries ih =>
      rw [tokens, mapTokens_eq, filterMap_dictionaryTokens htext, writtenLeaves_dictionary,
        List.filterMap_flatMap, OrderedMap.mapValues, List.flatMap_map]
      exact List.flatMap_congr ih
  | stream entries data ih =>
      have hdata : List.filterMap (Token.fault? table)
          [.ofString "\nstream\n", .text data, .ofString "\nendstream"] = [] := rfl
      rw [tokens_stream, List.filterMap_append, filterMap_dictionaryTokens htext, hdata, List.append_nil,
        writtenLeaves_stream, List.filterMap_flatMap, OrderedMap.mapValues, List.flatMap_map]
      refine List.flatMap_congr fun e he => ?_
      obtain ⟨k, value⟩ := e
      cases value with
      | none => rfl
      | some o => exact ih (k, o) (mem_streamEntries he)

theorem faults_valueTokens (table : Option ReferenceTable) (data : Bytes) (value : Option Object) :
    (valueTokens data value).filterMap (Token.fault? table) = (valueLeaves data value).filterMap (fault? table) := by
  cases value with
  | none => rfl
  | some o => exact faults_tokens table o

/-- Writing an object fails at the first leaf that has a fault, and for it. -/
theorem failure_write (table : Option ReferenceTable) (o : Object) :
    (o.write table).failure = o.writtenLeaves.findSome? (fault? table) := by
  rw [write, failure_writeTokens, ← List.head?_filterMap, faults_tokens, List.head?_filterMap]

/-- Only reals and references keep an object from being written. -/
theorem write_fails_iff (table : Option ReferenceTable) (o : Object) : (∃ e, (o.write table).failure = some e) ↔
    ∃ leaf ∈ o.writtenLeaves, (∃ x, leaf = real x ∧ x.isFinite = false) ∨
      ∃ r identity, leaf = indirect r ∧ table = some identity ∧ identity r = none := by
  rw [failure_write, ← Option.isSome_iff_exists, List.findSome?_isSome_iff]
  refine exists_congr fun leaf => and_congr_right fun _ => ?_
  rw [Option.isSome_iff_exists]
  constructor
  · rintro ⟨e, he⟩
    rcases fault?_eq_some.1 he with ⟨x, hleaf, hx, -⟩ | ⟨r, identity, hleaf, htable, hr, -⟩
    · exact Or.inl ⟨x, hleaf, hx⟩
    · exact Or.inr ⟨r, identity, hleaf, htable, hr⟩
  · rintro (⟨x, hleaf, hx⟩ | ⟨r, identity, hleaf, htable, hr⟩)
    · exact ⟨_, fault?_eq_some.2 (Or.inl ⟨x, hleaf, hx, rfl⟩)⟩
    · exact ⟨_, fault?_eq_some.2 (Or.inr ⟨r, identity, hleaf, htable, hr, rfl⟩)⟩

end Object

end PdfStore
