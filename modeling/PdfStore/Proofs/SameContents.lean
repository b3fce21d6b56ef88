import PdfStore.Proofs.EqualReals
import PdfStore.Proofs.FirstFault

/-!
# Objects with the same contents

Two objects have the same contents (`Object.Same`) if they are made in the same way of parts that have, where a
dictionary is the values it finds under its keys and numbers are compared as numbers. If all dictionaries are in order
(`Object.Canonical`), no function that looks at the values of a dictionary in order tells them apart (`Compositional`):
they are written alike, and their references are the same.
-/

namespace PdfStore

variable {table : Option ReferenceTable}

namespace Object

variable {o o' : Object} {d d' : Dictionary} {k : Name}

/-! ## The same contents -/

inductive Same : Object → Object → Prop
  | refl (o : Object) : Same o o
  | number {m n : Number} (h : (m == n) = true) : Same (.number m) (.number n)
  | array {items items' : List Object} (hlength : items.length = items'.length)
      (h : ∀ (i : Nat) o o', items[i]? = some o → items'[i]? = some o' → Same o o') : Same (.array items) (.array items')
  | dictionary {d d' : Dictionary} (hkeys : ∀ k, d.contains k = d'.contains k)
      (h : ∀ k o o', d.get? k = some o → d'.get? k = some o' → Same o o') : Same (.dictionary d) (.dictionary d')
  | stream {d d' : Dictionary} (hkeys : ∀ k, d.contains k = d'.contains k)
      (h : ∀ k o o', d.get? k = some o → d'.get? k = some o' → Same o o') (data : Bytes) :
      Same (.stream d data) (.stream d' data)

/-- Every dictionary in the object lists its keys in order. -/
inductive Canonical : Object → Prop
  | single {o : Object} (h : o.isSingle = true) : Canonical o
  | array {items : List Object} (h : ∀ o ∈ items, Canonical o) : Canonical (.array items)
  | dictionary {d : Dictionary} (hd : d.Ascending) (h : ∀ e ∈ d.entries, Canonical e.2) : Canonical (.dictionary d)
  | stream {d : Dictionary} (h : Canonical (.dictionary d)) (data : Bytes) : Canonical (.stream d data)

namespace Canonical

theorem of_mem {items : List Object} (h : Canonical (.array items)) (ho : o ∈ items) : Canonical o := by
  cases h with
  | single h => cases h
  | array h => exact h o ho

theorem ascending (h : Canonical (.dictionary d)) : d.Ascending := by
  cases h with
  | single h => cases h
  | dictionary hd _ => exact hd

theorem of_get? (h : Canonical (.dictionary d)) (ho : d.get? k = some o) : Canonical o := by
  cases h with
  | single h => cases h
  | dictionary hd h => exact h (k, o) ((OrderedMap.mem_entries_iff hd).2 ho)

theorem entries {data : Bytes} (h : Canonical (.stream d data)) : Canonical (.dictionary d) := by
  cases h with
  | single h => cases h
  | stream h _ => exact h

end Canonical

/-! ## Functions of the contents -/

/-- A function that depends on an array through the values it has on the items, and on a dictionary through those on the
values in the order of the keys. -/
structure Compositional {α : Type} (f : Object → α) : Prop where
  number : ∀ {m n : Number}, (m == n) = true → f (.number m) = f (.number n)
  array : ∀ {items items' : List Object}, items.map f = items'.map f → f (.array items) = f (.array items')
  dictionary : ∀ {d d' : Dictionary}, d.mapValues f = d'.mapValues f → f (.dictionary d) = f (.dictionary d')
  stream : ∀ {d d' : Dictionary} (data : Bytes), d.mapValues f = d'.mapValues f →
    f (.stream d data) = f (.stream d' data)

theorem mapValues_eq {α : Type} {f : Object → α} (hc : Canonical (.dictionary d)) (hc' : Canonical (.dictionary d'))
    (hkeys : ∀ k, d.contains k = d'.contains k)
    (h : ∀ k o o', d.get? k = some o → d'.get? k = some o' → Canonical o → Canonical o' → f o = f o') :
    d.mapValues f = d'.mapValues f := by
  refine OrderedMap.eq_of_get?_eq (OrderedMap.ascending_mapValues hc.ascending f)
    (OrderedMap.ascending_mapValues hc'.ascending f) fun k => ?_
  have hk := hkeys k
  unfold OrderedMap.contains at hk
  rw [OrderedMap.get?_mapValues, OrderedMap.get?_mapValues]
  cases ho : d.get? k with
  | none =>
      rw [ho] at hk
      rw [Option.not_isSome_iff_eq_none.1 (ne_true_of_eq_false hk.symm)]
  | some o =>
      rw [ho] at hk
      obtain ⟨o', ho'⟩ := Option.isSome_iff_exists.1 hk.symm
      rw [ho', Option.map_some, Option.map_some, h k o o' ho ho' (hc.of_get? ho) (hc'.of_get? ho')]

/-- What depends on the contents only is equal for the same contents. -/
theorem Same.eq {α : Type} {f : Object → α} (hf : Compositional f) (h : Same o o') (hc : Canonical o)
    (hc' : Canonical o') : f o = f o' := by
  induction h with
  | refl o => rfl
  | number h => exact hf.number h
  | @array items items' hlength _ ih =>
      refine hf.array (List.ext_getElem? fun i => ?_)
      rw [List.getElem?_map, List.getElem?_map]
      by_cases hi : i < items.length
      · have ho := List.getElem?_eq_getElem hi
        have ho' := List.getElem?_eq_getElem (hlength ▸ hi : i < items'.length)
        have hitem := ih i _ _ ho ho' (hc.of_mem (List.mem_of_getElem? ho)) (hc'.of_mem (List.mem_of_getElem? ho'))
        rw [ho, ho', Option.map_some, Option.map_some, hitem]
      · have hi' : ¬i < items'.length := hlength ▸ hi
        rw [List.getElem?_eq_none (Nat.le_of_not_lt hi), List.getElem?_eq_none (Nat.le_of_not_lt hi')]
  | dictionary hkeys _ ih => exact hf.dictionary (mapValues_eq hc hc' hkeys ih)
  | stream hkeys _ data ih => exact hf.stream data (mapValues_eq hc.entries hc'.entries hkeys ih)

end Object

/-! ## What is written -/

/-- The token with its bytes in the place of what they are the bytes of. -/
def Token.resolved (table : Option ReferenceTable) (t : Token) : Token :=
  match t.bytes table with
  | .ok b => .text b
  | .error _ => t

theorem writeTokens_resolved (ts : List Token) :
    writeTokens table (ts.map (Token.resolved table)) = writeTokens table ts := by
  induction ts with
  | nil => rfl
  | cons t ts ih =>
      have hbytes : (t.resolved table).bytes table = t.bytes table := by
        unfold Token.resolved
        cases ht : t.bytes table with
        | ok b => rfl
        | error e => exact ht
      rw [List.map_cons, writeTokens, hbytes, ih, writeTokens]

theorem resolved_numberToken {m n : Number} (h : (m == n) = true) :
    (numberToken m).resolved table = (numberToken n).resolved table := by
  cases m with
  | integer a =>
      cases n with
      | integer b =>
          obtain rfl : a = b := eq_of_beq h
          rfl
      | real y => cases h
  | real x =>
      cases n with
      | integer b => cases h
      | real y =>
          rcases Double.eq_or_zero_of_beq h with rfl | ⟨hx, hy⟩
          · rfl
          · simp only [numberToken, Token.resolved, hx.bytes, hy.bytes]

namespace Object

theorem compositional_tokens (table : Option ReferenceTable) :
    Compositional fun o => o.tokens.map (Token.resolved table) where
  number h := congrArg (fun t => [t]) (resolved_numberToken h)
  array h := by
    rw [tokens, tokens, itemTokens_eq, itemTokens_eq, map_arrayTokens fun _ => rfl, map_arrayTokens fun _ => rfl,
      List.map_map, List.map_map]
    exact congrArg arrayTokens h
  dictionary h := by
    rw [tokens, tokens, mapTokens_eq, mapTokens_eq, map_dictionaryTokens fun _ => rfl,
      map_dictionaryTokens fun _ => rfl, OrderedMap.mapValues_mapValues, OrderedMap.mapValues_mapValues, h]
  stream data h := by
    rw [tokens, tokens, mapTokens_eq, mapTokens_eq, map_streamTokens fun _ => rfl, map_streamTokens fun _ => rfl,
      OrderedMap.mapValues_mapValues, OrderedMap.mapValues_mapValues, h]

theorem itemReferences_eq (items : List Object) : itemReferences items = (items.map references).flatten := by
  induction items with
  | nil => rfl
  | cons o rest ih => rw [itemReferences, ih, List.map_cons, List.flatten_cons]

theorem mapReferences_eq (d : Dictionary) : mapReferences d = (d.mapValues references).values.flatten := by
  obtain ⟨entries⟩ := d
  rw [mapReferences, OrderedMap.mapValues, OrderedMap.values]
  induction entries with
  | nil => rfl
  | cons e rest ih => rw [entryReferences, ih, List.map_cons, List.map_cons, List.flatten_cons]

theorem compositional_references : Compositional references where
  number _ := rfl
  array h := by rw [references, references, itemReferences_eq, itemReferences_eq, h]
  dictionary h := by rw [references, references, mapReferences_eq, mapReferences_eq, h]
  stream _ h := by rw [references, references, mapReferences_eq, mapReferences_eq, h]

/-- The same contents are written with the same bytes, or with the same error after the same bytes. -/
theorem Same.write (h : Same o o') (hc : Canonical o) (hc' : Canonical o') : o.write table = o'.write table := by
  rw [Object.write, Object.write, ← writeTokens_resolved, h.eq (compositional_tokens table) hc hc', writeTokens_resolved]

theorem Same.references (h : Same o o') (hc : Canonical o) (hc' : Canonical o') : o.references = o'.references :=
  h.eq compositional_references hc hc'

end Object

end PdfStore
