import PdfStore.Proofs.WrittenLeaves

/-!
# The first fault

Writing an object ends at the first leaf that has a fault. What has been written by then stands in front of that
leaf in every object that is the same but for its faults: whatever takes the place of the leaf (`Context`), its
bytes follow on what has been written.
-/

namespace PdfStore

variable {table : Option ReferenceTable} {o x y : Object} {t : Token} {ts pre post : List Token} {e : ObjectError}

/-! ## What is done to each token -/

section Mapped

variable {g : Token → Token} (hg : ∀ b, g (.text b) = .text b)
include hg

theorem map_spaced (items : List (List Token)) : (spaced items).map g = spaced (items.map (List.map g)) := by
  have hblank : g (.ofString " ") = .ofString " " := hg _
  cases items with
  | nil => rfl
  | cons ts rest =>
      rw [spaced_cons, List.map_cons, spaced_cons, List.map_append, List.map_flatMap, List.flatMap_map]
      simp only [List.map_cons, hblank]

theorem map_arrayTokens (items : List (List Token)) :
    (arrayTokens items).map g = arrayTokens (items.map (List.map g)) := by
  simp only [arrayTokens, List.map_append, List.map_cons, List.map_nil, map_spaced hg, Token.ofString, hg]

theorem map_dictionaryTokens (m : OrderedMap Name (List Token)) :
    (dictionaryTokens m).map g = dictionaryTokens (m.mapValues (List.map g)) := by
  have hentry : List.map g ∘ entryTokens = entryTokens ∘ fun e => (e.1, e.2.map g) := funext fun e => by
    simp only [Function.comp_apply, entryTokens, nameToken, List.map_cons, Token.ofString, hg]
  simp only [dictionaryTokens, List.map_append, List.map_cons, List.map_nil, map_spaced hg, Token.ofString, hg,
    OrderedMap.mapValues, List.map_map, hentry]

theorem map_streamTokens (m : OrderedMap Name (List Token)) (data : Bytes) :
    (streamTokens m data).map g = streamTokens (m.mapValues (List.map g)) data := by
  rw [streamTokens, List.map_append, map_dictionaryTokens hg, OrderedMap.mapValues_insert, streamTokens]
  simp only [List.map_cons, List.map_nil, Token.ofString, hg]

end Mapped

/-! ## The tokens around one value -/

/-- What is written of a dictionary in front of one of its values. -/
def openingTokens (before : List (Name × List Token)) (key : Name) : List Token :=
  .ofString "<<" :: (before.map entryTokens).flatMap (· ++ [.ofString " "]) ++ [nameToken key, .ofString " "]

/-- What is written of a dictionary behind one of its values. -/
def closingTokens (after : List (Name × List Token)) : List Token :=
  (after.map entryTokens).flatMap (.ofString " " :: ·) ++ [.ofString ">>"]

theorem arrayTokens_append_cons (before : List (List Token)) (ts : List Token) (after : List (List Token)) :
    arrayTokens (before ++ ts :: after) = .ofString "[" :: before.flatMap (· ++ [.ofString " "]) ++ ts ++
      (after.flatMap (.ofString " " :: ·) ++ [.ofString "]"]) := by
  simp only [arrayTokens, spaced_append_cons, List.cons_append, List.append_assoc]

theorem dictionaryTokens_append_cons (before : List (Name × List Token)) (key : Name) (ts : List Token)
    (after : List (Name × List Token)) :
    dictionaryTokens ⟨before ++ (key, ts) :: after⟩ = openingTokens before key ++ ts ++ closingTokens after := by
  simp only [dictionaryTokens, openingTokens, closingTokens, List.map_append, List.map_cons, spaced_append_cons,
    entryTokens, List.cons_append, List.append_assoc, List.nil_append]

section Selected

variable {α : Type} {f : Token → Option α} (hf : ∀ b, f (.text b) = none)
include hf

theorem filterMap_opened (bracket : String) (lists : List (List Token)) :
    (Token.ofString bracket :: lists.flatMap (· ++ [.ofString " "])).filterMap f =
      lists.flatMap (List.filterMap f) := by
  rw [filterMap_ofString hf, List.filterMap_flatMap]
  refine List.flatMap_congr fun ts _ => ?_
  rw [List.filterMap_append, filterMap_ofString hf, List.filterMap_nil, List.append_nil]

theorem filterMap_openingTokens (before : List (Name × List Token)) (key : Name) :
    (openingTokens before key).filterMap f = before.flatMap fun e => e.2.filterMap f := by
  have hkey : [nameToken key, .ofString " "].filterMap f = [] := by
    rw [nameToken, List.filterMap_cons_none (hf _), filterMap_ofString hf, List.filterMap_nil]
  rw [openingTokens, List.filterMap_append, filterMap_opened hf, hkey, List.append_nil, List.flatMap_map]
  refine List.flatMap_congr fun e _ => ?_
  rw [entryTokens, nameToken, List.filterMap_cons_none (hf _), filterMap_ofString hf]

end Selected

/-! ## Objects without faults -/

/-- A token, or `null` in its place if it cannot be written. -/
def Token.mended (table : Option ReferenceTable) (t : Token) : Token :=
  if (t.fault? table).isSome then .ofString "null" else t

theorem Token.mended_of_fault (h : (t.fault? table).isSome) : t.mended table = .ofString "null" := if_pos h

theorem Token.mended_of_none (h : t.fault? table = none) : t.mended table = t := if_neg (by simp [h])

theorem Token.fault?_mended (table : Option ReferenceTable) (t : Token) : (t.mended table).fault? table = none := by
  cases h : t.fault? table with
  | none => rw [mended_of_none h, h]
  | some e => rw [mended_of_fault (by simp [h])]; rfl

namespace Object

mutual

/-- The object with `null` in the place of every leaf that has a fault. Under the key `Length` of a stream, whose
value is not written, it makes no difference. -/
def mended (table : Option ReferenceTable) : Object → Object
  | array items => array (mendedItems table items)
  | dictionary entries => dictionary (mendedMap table entries)
  | stream entries data => stream (mendedMap table entries) data
  | o => if (o.fault? table).isSome then null else o

def mendedItems (table : Option ReferenceTable) : List Object → List Object
  | [] => []
  | o :: rest => mended table o :: mendedItems table rest

def mendedMap (table : Option ReferenceTable) : Dictionary → Dictionary
  | ⟨entries⟩ => ⟨mendedEntries table entries⟩

def mendedEntries (table : Option ReferenceTable) : List (Name × Object) → List (Name × Object)
  | [] => []
  | (k, o) :: rest => (k, mended table o) :: mendedEntries table rest

end

theorem mended_single (h : o.isSingle = true) :
    o.mended table = if (o.fault? table).isSome then null else o := by
  cases o with
  | array items => cases h
  | dictionary entries => cases h
  | stream entries data => cases h
  | _ => rfl

theorem mendedItems_eq (items : List Object) : mendedItems table items = items.map (mended table) := by
  induction items with
  | nil => rfl
  | cons o rest ih => rw [mendedItems, ih, List.map_cons]

theorem mendedMap_eq (m : Dictionary) : mendedMap table m = m.mapValues (mended table) := by
  obtain ⟨entries⟩ := m
  simp only [mendedMap, OrderedMap.mapValues, OrderedMap.mk.injEq]
  induction entries with
  | nil => rfl
  | cons e rest ih => rw [mendedEntries, ih, List.map_cons]

/-- Tokens are mended where leaves are. -/
theorem tokens_mended (table : Option ReferenceTable) (o : Object) :
    (o.mended table).tokens = o.tokens.map (Token.mended table) := by
  have htext : ∀ b, Token.mended table (.text b) = .text b := fun _ => rfl
  have hmap {entries : List (Name × Object)} (ih : ∀ e ∈ entries, (e.2.mended table).tokens =
      e.2.tokens.map (Token.mended table)) : mapTokens (mendedMap table ⟨entries⟩) =
        (mapTokens ⟨entries⟩).mapValues (List.map (Token.mended table)) := by
    simp only [mapTokens_eq, mendedMap_eq, OrderedMap.mapValues, List.map_map, OrderedMap.mk.injEq]
    exact List.map_congr_left fun e he => congrArg (e.1, ·) (ih e he)
  induction o using induct with
  | single o h =>
      obtain ⟨t, ht, hfault⟩ := token_of_single h
      rw [mended_single h, ht, List.map_singleton, Token.mended, hfault]
      split
      · rfl
      · exact ht
  | array items ih =>
      rw [mended, tokens, tokens, map_arrayTokens htext, itemTokens_eq, itemTokens_eq, mendedItems_eq,
        List.map_map, List.map_map]
      exact congrArg arrayTokens (List.map_congr_left ih)
  | dictionary entries ih => rw [mended, tokens, tokens, map_dictionaryTokens htext, hmap ih]
  | stream entries data ih => rw [mended, tokens, tokens, map_streamTokens htext, hmap ih]

end Object

/-! ## What stands around a leaf -/

/-- An array, a dictionary or a stream in which the place of one object is left open. -/
inductive Frame
  | item (before after : List Object)
  | entry (before : List (Name × Object)) (key : Name) (after : List (Name × Object))
  | streamEntry (before : List (Name × Object)) (key : Name) (after : List (Name × Object)) (data : Bytes)

def Frame.fill : Frame → Object → Object
  | item before after, o => .array (before ++ o :: after)
  | entry before key after, o => .dictionary ⟨before ++ (key, o) :: after⟩
  | streamEntry before key after data, o => .stream ⟨before ++ (key, o) :: after⟩ data

/-- An object with an open place at some depth, the outermost frame first. -/
abbrev Context := List Frame

def Context.fill (c : Context) (o : Object) : Object := c.foldr Frame.fill o

/-- Objects are mended in a context one apart from the other. -/
theorem Frame.mended_fill (f : Frame) (h : x.mended table = y.mended table) :
    (f.fill x).mended table = (f.fill y).mended table := by
  cases f with
  | item before after => simp only [fill, Object.mended, Object.mendedItems_eq, List.map_append, List.map_cons, h]
  | entry before key after =>
      simp only [fill, Object.mended, Object.mendedMap_eq, OrderedMap.mapValues, List.map_append, List.map_cons, h]
  | streamEntry before key after data =>
      simp only [fill, Object.mended, Object.mendedMap_eq, OrderedMap.mapValues, List.map_append, List.map_cons, h]

theorem Context.mended_fill (c : Context) (h : x.mended table = y.mended table) :
    (c.fill x).mended table = (c.fill y).mended table := by
  induction c with
  | nil => exact h
  | cons f c ih => exact f.mended_fill ih

/-- What is written in front of an object in a larger one, and behind it: these leaves, as these tokens. -/
structure Surrounds (table : Option ReferenceTable) (fill : Object → Object) (before after : List Object)
    (pre post : List Token) : Prop where
  leaves : ∀ y, (fill y).writtenLeaves = before ++ y.writtenLeaves ++ after
  tokens : ∀ y, (fill y).tokens = pre ++ y.tokens ++ post
  faults : pre.filterMap (Token.fault? table) = before.filterMap (Object.fault? table)

theorem Surrounds.here : Surrounds table id [] [] [] [] :=
  ⟨fun y => (List.append_nil y.writtenLeaves).symm, fun y => (List.append_nil y.tokens).symm, rfl⟩

theorem Surrounds.inside {fill fill' : Object → Object} {before before' after after' : List Object}
    {pre pre' post post' : List Token} (h : Surrounds table fill before after pre post)
    (h' : Surrounds table fill' before' after' pre' post') :
    Surrounds table (fun y => fill (fill' y)) (before ++ before') (after' ++ after) (pre ++ pre') (post' ++ post) where
  leaves := fun y => by simp only [h.leaves, h'.leaves, List.append_assoc]
  tokens := fun y => by simp only [h.tokens, h'.tokens, List.append_assoc]
  faults := by rw [List.filterMap_append, List.filterMap_append, h.faults, h'.faults]

/-- What stands around an item of an array. -/
theorem surrounds_item (before after : List Object) : Surrounds table (Frame.fill (.item before after))
    (before.flatMap Object.writtenLeaves) (after.flatMap Object.writtenLeaves)
    (.ofString "[" :: (before.map Object.tokens).flatMap (· ++ [.ofString " "]))
    ((after.map Object.tokens).flatMap (.ofString " " :: ·) ++ [.ofString "]"]) where
  leaves := fun y => by
    rw [Frame.fill, Object.writtenLeaves_array, List.flatMap_append, List.flatMap_cons, List.append_assoc]
  tokens := fun y => by
    rw [Frame.fill, Object.tokens, Object.itemTokens_eq, List.map_append, List.map_cons, arrayTokens_append_cons]
  faults := by
    rw [filterMap_opened fun _ => rfl, List.flatMap_map, List.filterMap_flatMap]
    exact List.flatMap_congr fun o _ => Object.faults_tokens table o

/-- What stands around a value of a dictionary. -/
theorem surrounds_entry (before : List (Name × Object)) (key : Name) (after : List (Name × Object)) :
    Surrounds table (Frame.fill (.entry before key after))
      (before.flatMap fun e => e.2.writtenLeaves) (after.flatMap fun e => e.2.writtenLeaves)
      (openingTokens (before.map fun e => (e.1, e.2.tokens)) key)
      (closingTokens (after.map fun e => (e.1, e.2.tokens))) where
  leaves := fun y => by
    rw [Frame.fill, Object.writtenLeaves_dictionary, List.flatMap_append, List.flatMap_cons, List.append_assoc]
  tokens := fun y => by
    rw [Frame.fill, Object.tokens, Object.mapTokens_eq, OrderedMap.mapValues, List.map_append, List.map_cons,
      dictionaryTokens_append_cons]
  faults := by
    rw [filterMap_openingTokens fun _ => rfl, List.flatMap_map, List.filterMap_flatMap]
    exact List.flatMap_congr fun e _ => Object.faults_tokens table e.2

/-- What stands around a value of a stream that the length of the data does not replace. -/
theorem surrounds_streamEntry {before after : List (Name × Object)} {key : Name}
    {before' after' : List (Name × Option Object)} (data : Bytes)
    (h : ∀ y, (Object.streamEntries ⟨before ++ (key, y) :: after⟩).entries = before' ++ (key, some y) :: after') :
    Surrounds table (Frame.fill (.streamEntry before key after data))
      (before'.flatMap fun e => Object.valueLeaves data e.2) (after'.flatMap fun e => Object.valueLeaves data e.2)
      (openingTokens (before'.map fun e => (e.1, Object.valueTokens data e.2)) key)
      (closingTokens (after'.map fun e => (e.1, Object.valueTokens data e.2)) ++
        [.ofString "\nstream\n", .text data, .ofString "\nendstream"]) where
  leaves := fun y => by
    rw [Frame.fill, Object.writtenLeaves_stream, h, List.flatMap_append, List.flatMap_cons, List.append_assoc]
    rfl
  tokens := fun y => by
    rw [Frame.fill, Object.tokens_stream, OrderedMap.mapValues, h, List.map_append, List.map_cons,
      dictionaryTokens_append_cons, List.append_assoc]
    rfl
  faults := by
    rw [filterMap_openingTokens fun _ => rfl, List.flatMap_map, List.filterMap_flatMap]
    exact List.flatMap_congr fun e _ => Object.faults_valueTokens table data e.2

/-! ## The context of a leaf -/

theorem exists_of_flatMap_eq {α β : Type} {f : α → List β} {l : List α} {xs zs : List β} {b : β}
    (h : l.flatMap f = xs ++ b :: zs) : ∃ before a after ys ws, l = before ++ a :: after ∧ f a = ys ++ b :: ws ∧
      xs = before.flatMap f ++ ys ∧ zs = ws ++ after.flatMap f := by
  induction l generalizing xs with
  | nil => exact absurd h.symm (by simp)
  | cons a rest ih =>
      have hinside {xs : List β} (h : rest.flatMap f = xs ++ b :: zs) : ∃ before a' after ys ws,
          a :: rest = before ++ a' :: after ∧ f a' = ys ++ b :: ws ∧
            f a ++ xs = before.flatMap f ++ ys ∧ zs = ws ++ after.flatMap f := by
        obtain ⟨before, a', after, ys, ws, rfl, ha, rfl, rfl⟩ := ih h
        exact ⟨a :: before, a', after, ys, ws, rfl, ha, by simp, rfl⟩
      rw [List.flatMap_cons] at h
      rcases List.append_eq_append_iff.1 h with ⟨ys, rfl, hrest⟩ | ⟨ws, ha, hzs⟩
      · exact hinside hrest
      · cases ws with
        | nil =>
            have hrest : rest.flatMap f = [] ++ b :: zs := hzs.symm
            obtain ⟨before, a', after, ys, ws, hl, ha', hxs, rfl⟩ := hinside hrest
            exact ⟨before, a', after, ys, ws, hl, ha', by rw [← hxs, ha, List.append_nil, List.append_nil], rfl⟩
        | cons w ws =>
            obtain ⟨rfl, rfl⟩ := List.cons.inj hzs
            exact ⟨[], a, rest, xs, ws, rfl, ha, rfl, rfl⟩

/-- An object that is written of a stream may be any other one, without a change to what stands around it. -/
theorem exists_of_streamEntries_eq {m : Dictionary} {key : Name} {before after : List (Name × Option Object)}
    (h : (Object.streamEntries m).entries = before ++ (key, some o) :: after) :
    ∃ l₁ l₂, m.entries = l₁ ++ (key, o) :: l₂ ∧
      ∀ y, (Object.streamEntries ⟨l₁ ++ (key, y) :: l₂⟩).entries = before ++ (key, some y) :: after := by
  obtain ⟨l, l', hl, hall⟩ := OrderedMap.insertEntry_append_cons h (by simp)
  obtain ⟨l₁, rest, hm, rfl, hrest⟩ := List.map_eq_append_iff.1 hl
  obtain ⟨e, l₂, rfl, he, rfl⟩ := List.map_eq_cons_iff.1 hrest
  obtain ⟨k, o'⟩ := e
  cases he
  refine ⟨l₁, l₂, hm, fun y => ?_⟩
  have hinsert := hall (some y)
  simpa [Object.streamEntries, OrderedMap.insert, OrderedMap.mapValues] using hinsert

theorem isSingle_of_fault (h : (x.fault? table).isSome) : x.isSingle = true := by
  cases x with
  | array items => cases h
  | dictionary entries => cases h
  | stream entries data => cases h
  | _ => rfl

/-- Every leaf that has a fault stands in a context, between the leaves in front of it and behind it. -/
theorem exists_context (o : Object) {before after : List Object} (h : o.writtenLeaves = before ++ x :: after)
    (hx : (x.fault? table).isSome) :
    ∃ (c : Context) (pre post : List Token), o = c.fill x ∧ Surrounds table c.fill before after pre post := by
  induction o using Object.induct generalizing before after with
  | single o hsingle =>
      rw [Object.writtenLeaves_single hsingle] at h
      obtain ⟨rfl, h⟩ | ⟨_, -, h⟩ := List.cons_eq_append_iff.1 h
      · obtain ⟨rfl, rfl⟩ := List.cons.inj h
        exact ⟨[], [], [], rfl, .here⟩
      · simp at h
  | array items ih =>
      rw [Object.writtenLeaves_array] at h
      obtain ⟨l₁, a, l₂, ys, ws, rfl, ha, rfl, rfl⟩ := exists_of_flatMap_eq h
      obtain ⟨c, pre, post, rfl, hc⟩ := ih a (by simp) ha
      exact ⟨.item l₁ l₂ :: c, _, _, rfl, (surrounds_item l₁ l₂).inside hc⟩
  | dictionary entries ih =>
      rw [Object.writtenLeaves_dictionary] at h
      obtain ⟨l₁, ⟨key, a⟩, l₂, ys, ws, rfl, ha, rfl, rfl⟩ := exists_of_flatMap_eq h
      obtain ⟨c, pre, post, rfl, hc⟩ := ih (key, a) (by simp) ha
      exact ⟨.entry l₁ key l₂ :: c, _, _, rfl, (surrounds_entry l₁ key l₂).inside hc⟩
  | stream entries data ih =>
      rw [Object.writtenLeaves_stream] at h
      obtain ⟨l₁, ⟨key, value⟩, l₂, ys, ws, hsplit, ha, rfl, rfl⟩ := exists_of_flatMap_eq h
      cases value with
      | none =>
          -- The length of the data has no fault.
          have hlength : x ∈ [Object.integer (.ofNat data.length)] := by
            rw [show [Object.integer (.ofNat data.length)] = ys ++ x :: ws from ha]
            exact List.mem_append_right _ List.mem_cons_self
          rw [List.mem_singleton.1 hlength] at hx
          cases hx
      | some a =>
          obtain ⟨before', after', rfl, hall⟩ := exists_of_streamEntries_eq hsplit
          obtain ⟨c, pre, post, rfl, hc⟩ := ih (key, a) (by simp) ha
          exact ⟨.streamEntry before' key after' data :: c, _, _, rfl, (surrounds_streamEntry data hall).inside hc⟩

/-! ## What has been written -/

theorem complete_of_no_fault (h : ts.filterMap (Token.fault? table) = []) :
    ∃ b, (writeTokens table ts).complete = .ok b :=
  written_of_tokens fun t ht => Token.fault?_eq_none.1 (List.filterMap_eq_nil_iff.1 h t ht)

theorem no_fault_of_complete {b : Bytes} (h : (writeTokens table ts).complete = .ok b) :
    ∀ t ∈ ts, t.fault? table = none :=
  fun t ht => Token.fault?_eq_none.2 (token_of_written h t ht)

/-- What is written of tokens of which the first that has a fault is known. -/
theorem bytes_of_first_fault {b : Bytes} (hpre : (writeTokens table pre).complete = .ok b)
    (ht : t.fault? table = some e) : (writeTokens table (pre ++ t :: post)).bytes = b := by
  rw [writeTokens_append]
  unfold Written.complete at hpre
  cases hf : (writeTokens table pre).failure with
  | some e' =>
      rw [hf] at hpre
      cases hpre
  | none =>
      rw [hf] at hpre
      cases hpre
      simp only [writeTokens]
      unfold Token.fault? at ht
      cases hb : t.bytes table with
      | error e => simp
      | ok b =>
          rw [hb] at ht
          cases ht

theorem map_mended_of_no_fault (h : ∀ t ∈ ts, t.fault? table = none) : ts.map (Token.mended table) = ts := by
  rw [List.map_congr_left fun t ht => Token.mended_of_none (h t ht), List.map_id']

/-- Tokens that are mended can be written. -/
theorem complete_map_mended (table : Option ReferenceTable) (ts : List Token) :
    ∃ b, (writeTokens table (ts.map (Token.mended table))).complete = .ok b := by
  refine written_of_tokens fun t ht => ?_
  obtain ⟨t', -, rfl⟩ := List.mem_map.1 ht
  exact Token.fault?_eq_none.1 (t'.fault?_mended table)

/-- Writing an object fails if one of the leaves that are written is a real that is not finite, or a reference
that the table does not bind, and for the first of them. What has been written by then is what stands in front
of this leaf in the object with `null` for all such leaves: it is followed there by what is written of any
object in the place of the leaf, and by the same bytes after that. -/
theorem write_first_fault (table : Option ReferenceTable) (o : Object) :
    ((∃ e, (o.write table).failure = some e) ↔ ∃ leaf ∈ o.writtenLeaves, (∃ x, leaf = .real x ∧ x.isFinite = false) ∨
      ∃ r identity, leaf = .indirect r ∧ table = some identity ∧ identity r = none) ∧
    (o.write table).failure = o.writtenLeaves.findSome? (Object.fault? table) ∧
    ∀ e, (o.write table).failure = some e → ∃ (c : Context) (x : Object) (before after : List Object) (rest : Bytes),
      o = c.fill x ∧ x.fault? table = some e ∧
      o.writtenLeaves = before ++ x :: after ∧ (∀ leaf ∈ before, leaf.fault? table = none) ∧
      (∀ y, (c.fill y).writtenLeaves = before ++ y.writtenLeaves ++ after) ∧
      (o.mended table).toBytes table = .ok ((o.write table).bytes ++ Bytes.ofString "null" ++ rest) ∧
      ∀ y b, y.toBytes table = .ok b →
        ((c.fill y).mended table).toBytes table = .ok ((o.write table).bytes ++ b ++ rest) := by
  refine ⟨Object.write_fails_iff table o, Object.failure_write table o, fun e hfails => ?_⟩
  rw [Object.failure_write, List.findSome?_eq_some_iff] at hfails
  obtain ⟨before, x, after, hleaves, hx, hbefore⟩ := hfails
  have hsome : (x.fault? table).isSome := by rw [hx]; rfl
  obtain ⟨c, pre, post, rfl, hs⟩ := exists_context o hleaves hsome
  have hsingle := isSingle_of_fault hsome
  obtain ⟨t, htokens, hfault⟩ := Object.token_of_single hsingle
  -- In front of the leaf there is no fault, so all of that is written, and nothing in it is mended.
  have hpre : pre.filterMap (Token.fault? table) = [] := by
    rw [hs.faults]
    exact List.filterMap_eq_nil_iff.2 hbefore
  obtain ⟨written, hwritten⟩ := complete_of_no_fault hpre
  obtain ⟨rest, hrest⟩ := complete_map_mended table post
  have hbytes : ((c.fill x).write table).bytes = written := by
    rw [Object.write, hs.tokens, htokens, List.append_assoc]
    exact bytes_of_first_fault hwritten ((hfault table).trans hx)
  have hfill (y : Object) (b : Bytes) (hy : y.toBytes table = .ok b) :
      ((c.fill y).mended table).toBytes table = .ok (written ++ b ++ rest) := by
    rw [Object.toBytes, Object.write, Object.tokens_mended, hs.tokens, List.map_append, List.map_append,
      map_mended_of_no_fault (List.filterMap_eq_nil_iff.1 hpre), map_mended_of_no_fault (no_fault_of_complete hy)]
    refine complete_writeTokens_append.2 ⟨written ++ b, rest, ?_, hrest, rfl⟩
    exact complete_writeTokens_append.2 ⟨written, b, hwritten, hy, rfl⟩
  have hnull : x.mended table = Object.null.mended table := by
    rw [Object.mended_single hsingle, if_pos hsome]
    rfl
  rw [hbytes]
  refine ⟨c, x, before, after, rest, rfl, hx, hleaves, hbefore, hs.leaves, ?_, hfill⟩
  rw [c.mended_fill hnull]
  exact hfill .null _ rfl

/-- A stream with a real under `Length` that nobody sees, and two references behind it that are not bound. -/
theorem write_first_fault_of_stream : ∃ (o : Object) (table : Option ReferenceTable) (c : Context) (rest : Bytes),
    o = .stream ⟨[("Length", .real (Float.ofBits 0x7ff8000000000000)),
      ("Of", .array [.boolean true, .indirect ⟨5⟩, .indirect ⟨6⟩])]⟩ [0x78] ∧
    table = (some fun _ => none) ∧
    o.write table = ⟨Bytes.ofString "<</Length 1 /Of [true ", some (.unbound ⟨5⟩)⟩ ∧
    o = c.fill (.indirect ⟨5⟩) ∧
    (o.mended table).toBytes table = .ok (Bytes.ofString "<</Length 1 /Of [true null" ++ rest) ∧
    ((c.fill (.boolean false)).mended table).toBytes table =
      .ok (Bytes.ofString "<</Length 1 /Of [true false" ++ rest) := by
  let o : Object := .stream ⟨[("Length", .real (Float.ofBits 0x7ff8000000000000)),
    ("Of", .array [.boolean true, .indirect ⟨5⟩, .indirect ⟨6⟩])]⟩ [0x78]
  let table : Option ReferenceTable := some fun _ => none
  have hbytes : (o.write table).bytes = Bytes.ofString "<</Length 1 /Of [true " := by decide +kernel
  have hfails : (o.write table).failure = some (.unbound ⟨5⟩) := rfl
  obtain ⟨c, x, before, after, rest, ho, hx, -, -, -, hmended, hfill⟩ := (write_first_fault table o).2.2 _ hfails
  rcases Object.fault?_eq_some.1 hx with ⟨_, -, -, he⟩ | ⟨r, identity, rfl, -, -, he⟩
  · cases he
  · cases he
    rw [hbytes] at hmended hfill
    exact ⟨o, table, c, rest, rfl, rfl, congr (congrArg Written.mk hbytes) hfails, ho, hmended, hfill _ _ rfl⟩

end PdfStore
