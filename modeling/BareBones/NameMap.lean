/-
Maps from names.

A map is a list of entries in the order of their names, each name once.  The order is by code
points, and it is the order in which maps are shown.  Since the entries are sorted, two maps with
the same entries are equal.
-/

namespace BareBones

namespace NameMap

variable {α : Type}

/-- The entries stand in the order of their names. -/
def Sorted (entries : List (String × α)) : Prop :=
  entries.Pairwise (fun a b => a.1 < b.1)

/-- Puts an entry at its place, over the entry of the same name if there is one. -/
def insertEntry (name : String) (a : α) : List (String × α) → List (String × α)
  | [] => [(name, a)]
  | (n, b) :: rest =>
    if name = n then (name, a) :: rest
    else if name < n then (name, a) :: (n, b) :: rest
    else (n, b) :: insertEntry name a rest

/-- The value of the first entry of that name. -/
def lookup? (name : String) : List (String × α) → Option α
  | [] => none
  | (n, a) :: rest => if name = n then some a else lookup? name rest

theorem mem_insertEntry {name : String} {a : α} {entries : List (String × α)} {e : String × α}
    (h : e ∈ insertEntry name a entries) : e = (name, a) ∨ e ∈ entries := by
  induction entries with
  | nil => simpa [insertEntry] using h
  | cons head rest ih =>
    obtain ⟨n, b⟩ := head
    simp only [insertEntry] at h
    split at h
    · rcases List.mem_cons.1 h with h | h
      · exact Or.inl h
      · exact Or.inr (List.mem_cons_of_mem _ h)
    · split at h
      · exact List.mem_cons.1 h
      · rcases List.mem_cons.1 h with h | h
        · exact Or.inr (h ▸ List.mem_cons_self)
        · exact (ih h).imp_right (List.mem_cons_of_mem _)

theorem sorted_insertEntry (name : String) (a : α) {entries : List (String × α)}
    (h : Sorted entries) : Sorted (insertEntry name a entries) := by
  induction entries with
  | nil => simp [insertEntry, Sorted]
  | cons head rest ih =>
    obtain ⟨n, b⟩ := head
    have hhead : ∀ e ∈ rest, n < e.1 := (List.pairwise_cons.1 h).1
    have hrest : Sorted rest := (List.pairwise_cons.1 h).2
    simp only [insertEntry]
    split
    · next heq => exact List.pairwise_cons.2 ⟨fun e he => heq ▸ hhead e he, hrest⟩
    · next hne =>
      split
      · next hlt =>
        refine List.pairwise_cons.2 ⟨fun e he => ?_, h⟩
        rcases List.mem_cons.1 he with rfl | he
        · exact hlt
        · exact String.lt_trans hlt (hhead e he)
      · next hge =>
        have hn : n < name := by
          rcases Decidable.em (n < name) with hn | hn
          · exact hn
          · exact absurd (String.le_antisymm (String.not_lt.1 hn) (String.not_lt.1 hge)) hne
        refine List.pairwise_cons.2 ⟨fun e he => ?_, ih hrest⟩
        rcases mem_insertEntry he with rfl | he
        · exact hn
        · exact hhead e he

theorem lookup?_insertEntry (name : String) (a : α) (entries : List (String × α)) (n : String) :
    lookup? n (insertEntry name a entries) = if n = name then some a else lookup? n entries := by
  induction entries with
  | nil => rfl
  | cons head rest ih =>
    obtain ⟨m, b⟩ := head
    simp only [insertEntry]
    split
    · next heq => by_cases hn : n = name <;> simp_all [lookup?]
    · next hne =>
      split
      · rfl
      · simp only [lookup?, ih]
        by_cases hm : n = m
        · have : n ≠ name := fun h => hne (h ▸ hm)
          simp [hm, hm ▸ this]
        · simp [hm]

end NameMap

/-- A finite map from names. -/
structure NameMap (α : Type) where
  entries : List (String × α)
  sorted : NameMap.Sorted entries

namespace NameMap

variable {α : Type}

/-- The map without entries. -/
def empty : NameMap α :=
  ⟨[], List.Pairwise.nil⟩

instance : EmptyCollection (NameMap α) := ⟨empty⟩

instance : Inhabited (NameMap α) := ⟨empty⟩

/-- What the name maps to. -/
def get? (m : NameMap α) (name : String) : Option α :=
  lookup? name m.entries

/-- Does the name map to something? -/
def contains (m : NameMap α) (name : String) : Bool :=
  (m.get? name).isSome

/-- Maps the name to the value, whatever it was mapped to before. -/
def insert (m : NameMap α) (name : String) (a : α) : NameMap α :=
  ⟨insertEntry name a m.entries, sorted_insertEntry name a m.sorted⟩

/-- The number of names that are mapped. -/
def size (m : NameMap α) : Nat :=
  m.entries.length

/-- The map with the entries of the list; of two with one name the later counts. -/
def ofList (entries : List (String × α)) : NameMap α :=
  entries.foldl (fun m e => m.insert e.1 e.2) empty

@[simp]
theorem get?_empty (name : String) : (empty : NameMap α).get? name = none := rfl

@[simp]
theorem get?_insert (m : NameMap α) (name : String) (a : α) (n : String) :
    (m.insert name a).get? n = if n = name then some a else m.get? n :=
  lookup?_insertEntry name a m.entries n

@[simp]
theorem contains_insert (m : NameMap α) (name : String) (a : α) (n : String) :
    (m.insert name a).contains n = (decide (n = name) || m.contains n) := by
  by_cases h : n = name <;> simp [contains, h]

/-- Maps with the same entries are equal. -/
@[ext]
theorem ext {m₁ m₂ : NameMap α} (h : m₁.entries = m₂.entries) : m₁ = m₂ := by
  cases m₁; cases m₂; cases h; rfl

end NameMap

end BareBones
