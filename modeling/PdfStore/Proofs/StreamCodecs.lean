import PdfStore.Object.Stream
import PdfStore.Proofs.Codecs
import PdfStore.Proofs.OrderedMaps
import PdfStore.Proofs.Runs

/-!
# Codecs of a stream, one over the other

Whatever codecs are applied to a stream in place (`recode`), it decodes to what it decoded to at first. All that is
asked of the codecs at hand is that they decode what they encode, as the standard ones do; they may refuse to
encode, and the stream may list codecs that nobody knows.
-/

namespace PdfStore

/-- What the codec encodes, it decodes. It may refuse to encode. -/
def Codec.Undoes (c : Codec) : Prop :=
  ∀ data encoded, c.encode data = .ok encoded → c.decode encoded = .ok data

theorem Codec.Reversible.undoes {c : Codec} (h : c.Reversible) : c.Undoes := by
  intro data encoded hencode
  obtain ⟨encoded', hencode', hdecode⟩ := h data
  obtain rfl := Except.ok.inj (hencode'.symm.trans hencode)
  exact hdecode

namespace Stream

variable {registry : Registry} {name : Name} {s t : Stream}

/-! ## The entry that lists the codecs -/

/-- The entry is absent, a name, or an array of names. -/
def ListsNames (s : Stream) : Prop :=
  s.entries.get? "Filter" = none ∨ (∃ n : Name, s.entries.get? "Filter" = some (.name n)) ∨
    ∃ names : List Name, s.entries.get? "Filter" = some (.array (names.map .name))

theorem namesOf_eq_ok {items : List Object} {names : List Name} :
    namesOf items = .ok names ↔ items = names.map .name := by
  induction items generalizing names with
  | nil => cases names <;> simp [namesOf]
  | cons item items ih =>
      cases item with
      | name n =>
          rw [namesOf]
          cases names with
          | nil => cases namesOf items <;> simp [Except.map]
          | cons n' names =>
              rw [List.map_cons, List.cons.injEq, ← ih, Object.name.injEq]
              cases namesOf items <;> simp [Except.map]
      | _ => cases names <;> simp [namesOf]

theorem listsNames_iff : s.ListsNames ↔ ∃ names, s.filters = .ok names := by
  unfold ListsNames filters
  cases s.entries.get? "Filter" with
  | none => simp
  | some entry =>
      cases entry with
      | array items => simp [namesOf_eq_ok]
      | _ => simp

/-- What is written into the entry is read back, in each of its forms. -/
theorem filters_insert_filterEntry (entries : Dictionary) (names : List Name) (data : Bytes) :
    filters ⟨entries.insert "Filter" (filterEntry names), data⟩ = .ok names := by
  rw [filters, OrderedMap.get?_insert_self]
  match names with
  | [] => rfl
  | [n] => rfl
  | n :: n' :: names => exact namesOf_eq_ok.2 rfl

theorem filters_ofPlain {entries : Dictionary} (h : entries.Ascending) (data : Bytes) :
    (ofPlain entries data).filters = .ok [] := by
  rw [filters, ofPlain, OrderedMap.get?_erase_self h]

theorem decode_ofPlain {entries : Dictionary} (h : entries.Ascending) (data : Bytes) :
    (ofPlain entries data).decode registry = .ok data := by
  rw [decode, filters_ofPlain h]
  rfl

/-! ## One codec -/

theorem codec_eq_ok {c : Codec} : codec registry name = .ok c ↔ registry.get? name = some c := by
  unfold codec
  cases registry.get? name <;> simp

/-- What comes of a codec: it is listed before those that were listed, and they undo what they did before. -/
structure Encoded (registry : Registry) (name : Name) (s t : Stream) : Prop where
  data : ∃ c, registry.get? name = some c ∧ c.encode s.data = .ok t.data
  filters : ∃ names, s.filters = .ok names ∧ t.filters = .ok (name :: names)
  entries : ∀ key, key ≠ "Filter" → t.entries.get? key = s.entries.get? key
  decode : t.decode registry = s.decode registry

theorem encode_ok_iff : s.encode registry name = .ok t ↔ ∃ c names data, registry.get? name = some c ∧
    s.filters = .ok names ∧ c.encode s.data = .ok data ∧
    t = ⟨s.entries.insert "Filter" (filterEntry (name :: names)), data⟩ := by
  simp only [← codec_eq_ok]
  unfold encode
  cases codec registry name with
  | error e => simp [bind, Except.bind]
  | ok c =>
      cases s.filters with
      | error e => simp [bind, Except.bind]
      | ok names =>
          simp only [bind, Except.bind]
          cases hdata : c.encode s.data with
          | error e => simp [Except.mapError, hdata]
          | ok data => simp [Except.mapError, hdata, pure, Except.pure, eq_comm]

/-- The decoder looks the codec up again and finds the payload of before. -/
theorem encoded_of_encode (hundoes : ∀ {name c}, registry.get? name = some c → c.Undoes)
    (h : s.encode registry name = .ok t) : Encoded registry name s t := by
  obtain ⟨c, names, data, hc, hnames, hdata, rfl⟩ := encode_ok_iff.1 h
  have hfilters := filters_insert_filterEntry s.entries (name :: names) data
  refine ⟨⟨c, hc, hdata⟩, ⟨names, hnames, hfilters⟩, fun key hkey => OrderedMap.get?_insert_of_ne _ hkey _, ?_⟩
  have hplain := hundoes hc _ _ hdata
  rw [Stream.decode, Stream.decode, hfilters, hnames]
  change decodeData registry (name :: names) data = decodeData registry names s.data
  rw [decodeData, codec_eq_ok.2 hc]
  change ((c.decode data).mapError _ >>= _) = _
  rw [hplain]
  rfl

/-! ## Codecs in place -/

/-- Applies a codec in place: the payload first, then the entry that lists the codecs. -/
def recode (registry : Registry) (name : Name) : Operation ObjectError Stream Unit := do
  let s ← get
  let c ← Operation.ofExcept id (codec registry name)
  let names ← Operation.ofExcept id s.filters
  let data ← Operation.ofExcept id ((c.encode s.data).mapError (.filter c.name))
  modify fun s => { s with data }
  modify fun s => { s with entries := s.entries.insert "Filter" (filterEntry (name :: names)) }

/-- Nothing is changed before all that can fail is done. -/
theorem recode_eq (registry : Registry) (name : Name) (s : Stream) :
    recode registry name s = match s.encode registry name with
      | .ok t => .ok () t
      | .error e => .error e s := by
  unfold recode encode
  rw [Operation.bind_of_ok (Operation.get_apply s)]
  cases codec registry name with
  | error e => rfl
  | ok c =>
      cases s.filters with
      | error e => rfl
      | ok names =>
          rw [Operation.bind_of_ok (Operation.ofExcept_apply_ok id c s),
            Operation.bind_of_ok (Operation.ofExcept_apply_ok id names s)]
          simp only [bind, Except.bind]
          cases c.encode s.data <;> rfl

theorem recode_cases (registry : Registry) (name : Name) (s : Stream) :
    (∃ t, s.encode registry name = .ok t ∧ (recode registry name).outcome s = .ok () ∧
      (recode registry name).next s = t) ∨
    (∃ e, s.encode registry name = .error e ∧ (recode registry name).outcome s = .error e ∧
      (recode registry name).next s = s) := by
  have h := recode_eq registry name s
  cases hencode : s.encode registry name with
  | ok t =>
      rw [hencode] at h
      exact Or.inl ⟨t, rfl, Operation.outcome_ok h, Operation.next_ok h⟩
  | error e =>
      rw [hencode] at h
      exact Or.inr ⟨e, rfl, Operation.outcome_error h, Operation.next_error h⟩

/-! ## Runs -/

/-- What a call does that applies a codec to a stream. -/
structure Applied (registry : Registry) (e : Event Name ObjectError Stream Unit) : Prop where
  encoded : e.outcome = .ok () → Encoded registry e.call e.before e.after
  unchanged : e.outcome.isOk = false → e.after = e.before
  isOk_iff : e.outcome.isOk = true ↔ ∃ c data, registry.get? e.call = some c ∧ c.encode e.before.data = .ok data

theorem applied_ofCall (hundoes : ∀ {name c}, registry.get? name = some c → c.Undoes) (hs : s.ListsNames)
    (name : Name) : Applied registry (.ofCall (recode registry) name s) := by
  rcases recode_cases registry name s with ⟨t, h, houtcome, rfl⟩ | ⟨e, h, houtcome, hnext⟩
  · obtain ⟨c, names, data, hc, -, hdata, -⟩ := encode_ok_iff.1 h
    refine ⟨fun _ => encoded_of_encode hundoes h, fun herror => ?_, ?_⟩
    · rw [Event.ofCall, houtcome] at herror
      cases herror
    · rw [Event.ofCall, houtcome]
      exact iff_of_true rfl ⟨c, data, hc, hdata⟩
  · refine ⟨fun hok => ?_, fun _ => hnext, ?_⟩
    · rw [Event.ofCall, houtcome] at hok
      cases hok
    · rw [Event.ofCall, houtcome]
      refine iff_of_false Bool.false_ne_true ?_
      rintro ⟨c, data, hc, hdata⟩
      obtain ⟨names, hnames⟩ := listsNames_iff.1 hs
      rw [encode_ok_iff.2 ⟨c, names, data, hc, hnames, hdata, rfl⟩] at h
      cases h

theorem Applied.listsNames_decode {e : Event Name ObjectError Stream Unit} (h : Applied registry e)
    (hs : e.before.ListsNames) : e.after.ListsNames ∧ e.after.decode registry = e.before.decode registry := by
  cases houtcome : e.outcome with
  | ok _ =>
      have hencoded := h.encoded houtcome
      obtain ⟨names, -, hnames⟩ := hencoded.filters
      exact ⟨listsNames_iff.2 ⟨_, hnames⟩, hencoded.decode⟩
  | error _ =>
      rw [h.unchanged (houtcome ▸ rfl)]
      exact ⟨hs, rfl⟩

/-- A stream decodes to the same bytes, or fails to decode in the same way, before and after any codecs that are
applied to it. Each that succeeds is listed first, over the ones before; each that fails has left the stream as it
was. A stream made of plain bytes decodes to them. -/
theorem decode_of_run (hundoes : ∀ {name c}, registry.get? name = some c → c.Undoes) (hs : s.ListsNames)
    {log : List (Event Name ObjectError Stream Unit)} (h : Runs (recode registry) s log t) :
    (∀ e ∈ log, Applied registry e) ∧ t.ListsNames ∧ t.decode registry = s.decode registry ∧
      ∀ entries data, OrderedMap.Ascending entries → s = ofPlain entries data → t.decode registry = .ok data := by
  have hkeep : ∀ name {u : Stream}, u.ListsNames ∧ u.decode registry = s.decode registry →
      ((recode registry name).next u).ListsNames ∧
        ((recode registry name).next u).decode registry = s.decode registry := by
    intro name u hu
    obtain ⟨hlists, hdecode⟩ := (applied_ofCall hundoes hu.1 name).listsNames_decode hu.1
    exact ⟨hlists, hdecode.trans hu.2⟩
  obtain ⟨hevents, hlists, hdecode⟩ := Runs.forall_event
    (P := fun u => u.ListsNames ∧ u.decode registry = s.decode registry) (Q := Applied registry)
    (fun name {u} hu => applied_ofCall hundoes hu.1 name) hkeep ⟨hs, rfl⟩ h
  refine ⟨hevents, hlists, hdecode, fun entries data hentries hplain => ?_⟩
  rw [hdecode, hplain, decode_ofPlain hentries]

/-- Three codecs over each other that mix both kinds, after a name that nobody knows, on a stream whose stale entry
was dropped. -/
theorem decode_of_run_of_three : (∀ {name c}, Registry.standard.get? name = some c → c.Undoes) ∧
    ∃ (entries : Dictionary) (s t : Stream) (log : List (Event Name ObjectError Stream Unit)),
      entries.Ascending ∧ s = ofPlain entries [7, 8, 9] ∧ s.ListsNames ∧
        Runs (recode Registry.standard) s log t ∧ log.map (fun e => e.outcome.isOk) = [true, true, true, false] ∧
        t.filters.toOption = some ["ASCIIHexDecode", "FlateDecode", "ASCIIHexDecode"] ∧
        (∀ e ∈ log, Applied Registry.standard e) ∧ t.decode Registry.standard = .ok [7, 8, 9] := by
  have hundoes : ∀ {name c}, Registry.standard.get? name = some c → c.Undoes :=
    fun h => (Registry.standard_reversible h).undoes
  let entries : Dictionary := .ofList [("Filter", .name "FlateDecode"), ("Length", .null)]
  let calls : List Name := ["LZWDecode", "ASCIIHexDecode", "FlateDecode", "ASCIIHexDecode"]
  have hentries : entries.Ascending := OrderedMap.ascending_ofList _
  have hs : (ofPlain entries [7, 8, 9]).ListsNames := Or.inl (OrderedMap.get?_erase_self hentries "Filter")
  have hrun := runs_events (recode Registry.standard) calls (ofPlain entries [7, 8, 9])
  obtain ⟨hevents, -, -, hplain⟩ := decode_of_run hundoes hs hrun
  exact ⟨hundoes, entries, _, _, _, hentries, rfl, hs, hrun, by decide +kernel, by decide +kernel, hevents,
    hplain entries _ hentries rfl⟩

end Stream

end PdfStore
