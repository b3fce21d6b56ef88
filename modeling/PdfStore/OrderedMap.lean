/-!
# Ordered maps

A map is a list of pairs of key and value. Insertion replaces the pair of an equal key or goes before
the first larger key, so a map built by these operations lists each key once, in ascending order
(`OrderedMap.Ascending`), whatever the order of the operations.
-/

namespace PdfStore

structure OrderedMap (κ α : Type) where
  entries : List (κ × α)

namespace OrderedMap

variable {κ α β : Type}

def empty : OrderedMap κ α := ⟨[]⟩

instance : Inhabited (OrderedMap κ α) := ⟨empty⟩

def size (m : OrderedMap κ α) : Nat := m.entries.length

def isEmpty (m : OrderedMap κ α) : Bool := m.entries.isEmpty

def keys (m : OrderedMap κ α) : List κ := m.entries.map Prod.fst

def values (m : OrderedMap κ α) : List α := m.entries.map Prod.snd

def mapValues (f : α → β) (m : OrderedMap κ α) : OrderedMap κ β :=
  ⟨m.entries.map fun e => (e.1, f e.2)⟩

variable [Ord κ]

/-! ## Operations on the list of pairs -/

def insertEntry (k : κ) (v : α) : List (κ × α) → List (κ × α)
  | [] => [(k, v)]
  | (k', v') :: rest =>
    match compare k k' with
    | .lt => (k, v) :: (k', v') :: rest
    | .eq => (k, v) :: rest
    | .gt => (k', v') :: insertEntry k v rest

def eraseEntry (k : κ) : List (κ × α) → List (κ × α)
  | [] => []
  | (k', v') :: rest => if compare k k' = .eq then rest else (k', v') :: eraseEntry k rest

def lookupEntry (k : κ) : List (κ × α) → Option α
  | [] => none
  | (k', v') :: rest => if compare k k' = .eq then some v' else lookupEntry k rest

/-! ## Operations -/

def get? (m : OrderedMap κ α) (k : κ) : Option α := lookupEntry k m.entries

def contains (m : OrderedMap κ α) (k : κ) : Bool := (m.get? k).isSome

def insert (m : OrderedMap κ α) (k : κ) (v : α) : OrderedMap κ α := ⟨insertEntry k v m.entries⟩

def erase (m : OrderedMap κ α) (k : κ) : OrderedMap κ α := ⟨eraseEntry k m.entries⟩

/-- Inserts the pairs in order, so the last of several equal keys stays. -/
def ofList (entries : List (κ × α)) : OrderedMap κ α :=
  entries.foldl (fun m e => m.insert e.1 e.2) empty

/-- Each key is smaller than every later one. -/
def Ascending (m : OrderedMap κ α) : Prop :=
  m.entries.Pairwise fun a b => compare a.1 b.1 = .lt

/-! ## What the operations keep -/

theorem mem_insertEntry {k : κ} {v : α} {e : κ × α} {l : List (κ × α)}
    (h : e ∈ insertEntry k v l) : e = (k, v) ∨ e ∈ l := by
  induction l with
  | nil => simpa [insertEntry] using h
  | cons e₁ rest ih =>
    obtain ⟨k₁, v₁⟩ := e₁
    simp only [insertEntry] at h
    split at h
    · simpa using h
    · simp only [List.mem_cons] at h ⊢
      exact h.imp id Or.inr
    · simp only [List.mem_cons] at h ⊢
      rcases h with h | h
      · exact Or.inr (Or.inl h)
      · exact (ih h).imp id Or.inr

theorem mem_eraseEntry {k : κ} {e : κ × α} {l : List (κ × α)} (h : e ∈ eraseEntry k l) : e ∈ l := by
  induction l with
  | nil => simp [eraseEntry] at h
  | cons e₁ rest ih =>
    obtain ⟨k₁, v₁⟩ := e₁
    simp only [eraseEntry] at h
    split at h
    · exact List.mem_cons_of_mem _ h
    · simp only [List.mem_cons] at h ⊢
      exact h.imp id ih

theorem ascending_empty : (empty : OrderedMap κ α).Ascending := List.Pairwise.nil

theorem ascending_erase {m : OrderedMap κ α} (k : κ) (h : m.Ascending) : (m.erase k).Ascending := by
  obtain ⟨l⟩ := m
  simp only [Ascending, erase] at h ⊢
  induction l with
  | nil => simp [eraseEntry]
  | cons e rest ih =>
    obtain ⟨k₁, v₁⟩ := e
    obtain ⟨h₁, h₂⟩ := List.pairwise_cons.1 h
    simp only [eraseEntry]
    split
    · exact h₂
    · exact List.pairwise_cons.2 ⟨fun e he => h₁ e (mem_eraseEntry he), ih h₂⟩

/-! ## What is found after an insertion -/

section

variable [Std.LawfulEqOrd κ]

theorem lookupEntry_insertEntry_self (k : κ) (v : α) (l : List (κ × α)) :
    lookupEntry k (insertEntry k v l) = some v := by
  induction l with
  | nil => simp [insertEntry, lookupEntry]
  | cons e rest ih =>
    obtain ⟨k₁, v₁⟩ := e
    simp only [insertEntry]
    split
    · simp [lookupEntry]
    · simp [lookupEntry]
    · rename_i h
      simp [lookupEntry, h, ih]

theorem lookupEntry_insertEntry_of_ne {k k' : κ} (h : k' ≠ k) (v : α) (l : List (κ × α)) :
    lookupEntry k' (insertEntry k v l) = lookupEntry k' l := by
  induction l with
  | nil => simp [insertEntry, lookupEntry, h]
  | cons e rest ih =>
    obtain ⟨k₁, v₁⟩ := e
    simp only [insertEntry]
    split
    · simp [lookupEntry, h]
    · rename_i heq
      rw [Std.compare_eq_iff_eq] at heq
      simp [lookupEntry, ← heq, h]
    · simp [lookupEntry, ih]

theorem get?_insert_self (m : OrderedMap κ α) (k : κ) (v : α) : (m.insert k v).get? k = some v :=
  lookupEntry_insertEntry_self k v m.entries

theorem get?_insert_of_ne (m : OrderedMap κ α) {k k' : κ} (h : k' ≠ k) (v : α) :
    (m.insert k v).get? k' = m.get? k' :=
  lookupEntry_insertEntry_of_ne h v m.entries

end

/-! ## The order of the keys -/

variable [Std.TransOrd κ] [Std.LawfulEqOrd κ]

theorem ascending_insert {m : OrderedMap κ α} (k : κ) (v : α) (h : m.Ascending) :
    (m.insert k v).Ascending := by
  obtain ⟨l⟩ := m
  simp only [Ascending, insert] at h ⊢
  induction l with
  | nil => simp [insertEntry]
  | cons e rest ih =>
    obtain ⟨k₁, v₁⟩ := e
    obtain ⟨h₁, h₂⟩ := List.pairwise_cons.1 h
    simp only [insertEntry]
    split
    · rename_i hlt
      refine List.pairwise_cons.2 ⟨fun e he => ?_, h⟩
      rcases List.mem_cons.1 he with rfl | he
      · exact hlt
      · exact Std.TransCmp.lt_trans hlt (h₁ e he)
    · rename_i heq
      rw [Std.compare_eq_iff_eq] at heq
      subst heq
      exact List.pairwise_cons.2 ⟨fun e he => h₁ e he, h₂⟩
    · rename_i hgt
      refine List.pairwise_cons.2 ⟨fun e he => ?_, ih h₂⟩
      rcases mem_insertEntry he with rfl | he
      · exact Std.OrientedCmp.gt_iff_lt.1 hgt
      · exact h₁ e he

theorem ascending_ofList (entries : List (κ × α)) : (ofList entries).Ascending := by
  have : ∀ (l : List (κ × α)) (m : OrderedMap κ α), m.Ascending →
      (l.foldl (fun m e => m.insert e.1 e.2) m).Ascending := by
    intro l
    induction l with
    | nil => exact fun m h => h
    | cons e rest ih => exact fun m h => ih _ (ascending_insert e.1 e.2 h)
  exact this entries empty ascending_empty

end OrderedMap

end PdfStore
