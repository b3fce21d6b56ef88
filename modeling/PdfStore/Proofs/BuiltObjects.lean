import PdfStore.Object.Edit
import PdfStore.Proofs.SameContents
import PdfStore.Proofs.StreamCodecs

/-!
# Objects that are built

Objects are put together from lists of items and of pairs, and changed in place at any depth (`Object.Built`). Whatever
is done, their dictionaries stay in order.
-/

namespace PdfStore

variable {α : Type} {o o' : Object} {d : Dictionary} {k : Name} {path : List Segment}

/-! ## Parts of an object in order -/

namespace Object.Canonical

theorem insert (hd : Canonical (.dictionary d)) (k : Name) (ho : Canonical o) :
    Canonical (.dictionary (d.insert k o)) := by
  refine .dictionary (OrderedMap.ascending_insert k o hd.ascending) fun e he => ?_
  rcases OrderedMap.mem_insertEntry he with rfl | he
  · exact ho
  · exact hd.of_get? ((OrderedMap.mem_entries_iff hd.ascending).1 he)

theorem erase (hd : Canonical (.dictionary d)) (k : Name) : Canonical (.dictionary (d.erase k)) :=
  .dictionary (OrderedMap.ascending_erase k hd.ascending) fun _ he =>
    hd.of_get? ((OrderedMap.mem_entries_iff hd.ascending).1 (OrderedMap.mem_eraseEntry he))

theorem ofList {entries : List (Name × Object)} (h : ∀ e ∈ entries, Canonical e.2) :
    Canonical (.dictionary (.ofList entries)) := by
  have hfold : ∀ (l : List (Name × Object)) (d : Dictionary), (∀ e ∈ l, Canonical e.2) → Canonical (.dictionary d) →
      Canonical (.dictionary (l.foldl (fun d e => d.insert e.1 e.2) d)) := by
    intro l
    induction l with
    | nil => exact fun d _ hd => hd
    | cons e rest ih =>
        intro d hl hd
        obtain ⟨he, hrest⟩ := List.forall_mem_cons.1 hl
        exact ih _ hrest (hd.insert e.1 he)
  exact hfold entries .empty h (.dictionary OrderedMap.ascending_empty (List.forall_mem_nil _))

theorem of_entries? (h : Canonical o) (hd : o.entries? = some d) : Canonical (.dictionary d) := by
  cases o with
  | dictionary d' =>
      cases hd
      exact h
  | stream d' data =>
      cases hd
      exact h.entries
  | _ => cases hd

theorem of_child? {s : Segment} (h : Canonical o) (hchild : o.child? s = some o') : Canonical o' := by
  cases s with
  | index i =>
      obtain ⟨items, hitems, hi⟩ := Option.bind_eq_some_iff.1 hchild
      cases o with
      | array items' =>
          cases hitems
          exact h.of_mem (List.mem_of_getElem? hi)
      | _ => cases hitems
  | key k =>
      obtain ⟨d, hd, hk⟩ := Option.bind_eq_some_iff.1 hchild
      exact (h.of_entries? hd).of_get? hk

theorem of_at? (h : Canonical o) (hat : o.at? path = some o') : Canonical o' := by
  induction path generalizing o with
  | nil =>
      cases hat
      exact h
  | cons s path ih =>
      obtain ⟨child, hchild, hrest⟩ := Option.bind_eq_some_iff.1 hat
      exact ih (h.of_child? hchild) hrest

theorem setChild {s : Segment} (h : Canonical o) (ho' : Canonical o') : Canonical (Edit.setChild o o' s) := by
  cases s with
  | index i =>
      cases o with
      | array items =>
          refine .array fun x hx => ?_
          rcases List.mem_or_eq_of_mem_set hx with hx | rfl
          · exact h.of_mem hx
          · exact ho'
      | _ => exact h
  | key k =>
      cases o with
      | dictionary d => exact h.insert k ho'
      | stream d data => exact .stream (h.entries.insert k ho') data
      | _ => exact h

end Object.Canonical

open Object (Canonical)

/-! ## Edits in order -/

namespace Edit

/-- Dictionaries that are in order stay so. -/
def Keeps (e : Edit α) : Prop := ∀ o a o', Canonical o → e o = some (a, o') → Canonical o'

theorem keeps_items {x : StateM (List Object) α} (hx : ∀ l, ∀ o ∈ (x l).2, o ∈ l ∨ Canonical o) : Keeps (items x) := by
  intro o a o' h he
  cases o with
  | array l =>
      cases he
      exact .array fun o ho => (hx l o ho).elim h.of_mem id
  | _ => cases he

theorem keeps_entries {x : StateM Dictionary α}
    (hx : ∀ d, Canonical (.dictionary d) → Canonical (.dictionary (x d).2)) : Keeps (entries x) := by
  intro o a o' h he
  cases o with
  | dictionary d =>
      cases he
      exact hx d h
  | stream d data =>
      cases he
      exact .stream (hx d h.entries) data
  | _ => cases he

theorem keeps_stream {x : StateM Stream α}
    (hx : ∀ s, Canonical (.dictionary s.entries) → Canonical (.dictionary (x s).2.entries)) : Keeps (stream x) := by
  intro o a o' h he
  cases o with
  | stream d data =>
      cases he
      exact .stream (hx ⟨d, data⟩ h.entries) _
  | _ => cases he

theorem along_cons (s : Segment) (path : List Segment) (e : Edit α) (o : Object) :
    along (s :: path) e o = (o.child? s).bind fun child =>
      (along path e child).map fun r => (r.1, setChild o r.2 s) := by
  change ((o.child? s).bind fun child => (along path e child).bind fun r => some (r.1, setChild o r.2 s)) = _
  refine congrArg _ (funext fun child => ?_)
  cases along path e child <;> rfl

theorem keeps_along {e : Edit α} (he : Keeps e) (path : List Segment) : Keeps (along path e) := by
  induction path with
  | nil => exact he
  | cons s path ih =>
      intro o a o' h hinside
      rw [along_cons] at hinside
      obtain ⟨child, hchild, hrest⟩ := Option.bind_eq_some_iff.1 hinside
      obtain ⟨⟨b, child'⟩, hedit, hset⟩ := Option.map_eq_some_iff.1 hrest
      cases hset
      exact h.setChild (ih _ _ _ (h.of_child? hchild) hedit)

/-- An edit of a part answers what it answers for the part. -/
theorem answer_along (path : List Segment) (e : Edit α) (o : Object) :
    (along path e o).map Prod.fst = (o.at? path).bind fun part => (e part).map Prod.fst := by
  induction path generalizing o with
  | nil => rfl
  | cons s path ih =>
      rw [Object.at?, Option.bind_assoc, along_cons, Option.map_bind]
      refine congrArg _ (funext fun child => ?_)
      rw [← ih child, Function.comp_apply, Option.map_map]
      rfl

/-- The edit without its answer. -/
def unanswered (e : Edit α) : Edit (Option Object) := fun o => (e o).map fun r => (none, r.2)

theorem keeps_unanswered {e : Edit α} (he : Keeps e) : Keeps e.unanswered := by
  intro o a o' h hedit
  obtain ⟨⟨b, x⟩, hx, heq⟩ := Option.map_eq_some_iff.1 hedit
  cases heq
  exact he _ _ _ h hx

end Edit

/-! ## Changes -/

/-- What can be done to an object in place. -/
inductive Change
  | replace (o : Object)
  | push (o : Object)
  | addItem (i : Nat) (o : Object)
  | setItem (i : Nat) (o : Object)
  | removeItem (i : Nat)
  | put (k : Name) (o : Object)
  | remove (k : Name)
  | setPlain (data : Bytes)
  | encode (registry : Registry) (name : Name)

namespace Change

/-- A change answers the object that it replaces or takes out of an array or a dictionary. -/
def edit : Change → Edit (Option Object)
  | replace o => (Edit.replace o).unanswered
  | push o => (Edit.items (Items.push o)).unanswered
  | addItem i o => (Edit.items (Items.insert i o)).unanswered
  | setItem i o => Edit.items (Items.set i o)
  | removeItem i => Edit.items (Items.remove i)
  | put k o => Edit.entries (Entries.put k o)
  | remove k => Edit.entries (Entries.remove k)
  | setPlain data => (Edit.stream (modify (·.setPlain data))).unanswered
  | encode registry name => (Edit.stream (modify fun s => (s.encode registry name).toOption.getD s)).unanswered

/-- The objects that a change puts in. -/
def values : Change → List Object
  | replace o | push o | addItem _ o | setItem _ o | put _ o => [o]
  | removeItem _ | remove _ | setPlain _ | encode _ _ => []

end Change

theorem canonical_filterEntry (names : List Name) : Canonical (Stream.filterEntry names) := by
  have hitems : Canonical (.array (names.map .name)) := .array fun o ho => by
    obtain ⟨n, -, rfl⟩ := List.mem_map.1 ho
    exact .single rfl
  match names with
  | [n] => exact .single rfl
  | [] => exact hitems
  | _ :: _ :: _ => exact hitems

theorem Change.keeps (c : Change) (hc : ∀ o ∈ c.values, Canonical o) : c.edit.Keeps := by
  cases c with
  | replace x =>
      refine Edit.keeps_unanswered fun o a o' _ he => ?_
      cases he
      exact hc x List.mem_cons_self
  | push x =>
      refine Edit.keeps_unanswered (Edit.keeps_items fun l o ho => ?_)
      rcases List.mem_append.1 ho with ho | ho
      · exact Or.inl ho
      · exact Or.inr (hc o ho)
  | addItem i x =>
      refine Edit.keeps_unanswered (Edit.keeps_items fun l o ho => ?_)
      simp only [Items.insert] at ho
      split at ho
      · rename_i hi
        rcases (List.mem_insertIdx hi).1 ho with rfl | ho
        · exact Or.inr (hc o List.mem_cons_self)
        · exact Or.inl ho
      · exact Or.inl ho
  | setItem i x =>
      rw [edit]
      refine Edit.keeps_items fun l o ho => ?_
      rcases List.mem_or_eq_of_mem_set ho with ho | rfl
      · exact Or.inl ho
      · exact Or.inr (hc o List.mem_cons_self)
  | removeItem i =>
      rw [edit]
      exact Edit.keeps_items fun l o ho => Or.inl (List.mem_of_mem_eraseIdx ho)
  | put k x =>
      rw [edit]
      exact Edit.keeps_entries fun d hd => hd.insert k (hc x List.mem_cons_self)
  | remove k =>
      rw [edit]
      exact Edit.keeps_entries fun d hd => hd.erase k
  | setPlain data => exact Edit.keeps_unanswered (Edit.keeps_stream fun s hs => hs.erase "Filter")
  | encode registry name =>
      refine Edit.keeps_unanswered (Edit.keeps_stream fun s hs => ?_)
      change Canonical (.dictionary ((s.encode registry name).toOption.getD s).entries)
      cases hencode : s.encode registry name with
      | error e => exact hs
      | ok t =>
          obtain ⟨_, names, _, -, -, -, rfl⟩ := Stream.encode_ok_iff.1 hencode
          exact hs.insert "Filter" (canonical_filterEntry (name :: names))

/-! ## Building -/

namespace Object

/-- Objects that come about by putting together and by changing. -/
inductive Built : Object → Prop
  | single {o : Object} (h : o.isSingle = true) : Built o
  | array {items : List Object} (h : ∀ o ∈ items, Built o) : Built (.array items)
  | dictionary {entries : List (Name × Object)} (h : ∀ e ∈ entries, Built e.2) : Built (.dictionary (.ofList entries))
  | stream {d : Dictionary} (h : Built (.dictionary d)) (data : Bytes) : Built (Stream.ofPlain d data).toObject
  | changed {o o' : Object} {a : Option Object} (h : Built o) (path : List Segment) (c : Change)
      (hc : ∀ v ∈ c.values, Built v) (hedit : Edit.along path c.edit o = some (a, o')) : Built o'

theorem Built.canonical (h : Built o) : Canonical o := by
  induction h with
  | single h => exact .single h
  | array _ ih => exact .array ih
  | dictionary _ ih => exact .ofList ih
  | stream _ data ih => exact .stream (ih.erase "Filter") data
  | @changed o o' a _ path c _ hedit ih ihc => exact Edit.keeps_along (c.keeps ihc) path _ _ _ ih hedit

end Object

end PdfStore
