/-
  StackCalc.Table

  Finite tables from names to values, in the order in which the names were first
  given.  `set` replaces the value of a name in its place, so that a name is bound
  at most once and the last binding counts.
-/

namespace StackCalc

/-- A table: names with their values, in the order of their first binding. -/
structure Table (α : Type) where
  entries : List (String × α)
deriving Repr

namespace Table

variable {α : Type}

/-- The table without names. -/
def empty : Table α := ⟨[]⟩

/-- The value of the first entry with a name. -/
def find? (name : String) : List (String × α) → Option α
  | [] => none
  | (key, value) :: rest => if key = name then some value else find? name rest

/-- The value of a name. -/
def get? (table : Table α) (name : String) : Option α :=
  find? name table.entries

/-- Entries with the first entry of a name replaced, or a new one at the end. -/
def replace (name : String) (value : α) : List (String × α) → List (String × α)
  | [] => [(name, value)]
  | (key, old) :: rest =>
    if key = name then (key, value) :: rest else (key, old) :: replace name value rest

/-- The table with a name bound to a value. -/
def set (table : Table α) (name : String) (value : α) : Table α :=
  ⟨replace name value table.entries⟩

/-- Whether a name is bound. -/
def contains (table : Table α) (name : String) : Bool :=
  (table.get? name).isSome

/-- The names that are bound, in the order of their first binding. -/
def names (table : Table α) : List String :=
  table.entries.map (·.1)

@[simp] theorem get?_empty (name : String) : (empty : Table α).get? name = none := rfl

theorem mem_of_find? {name : String} {value : α} {entries : List (String × α)}
    (h : find? name entries = some value) : (name, value) ∈ entries := by
  induction entries with
  | nil => cases h
  | cons entry rest ih =>
    obtain ⟨key, old⟩ := entry
    rw [find?] at h
    split at h
    · obtain ⟨rfl, rfl⟩ : key = name ∧ old = value := ⟨‹_›, Option.some.inj h⟩
      exact List.mem_cons_self ..
    · exact List.mem_cons_of_mem _ (ih h)

theorem find?_replace (name other : String) (value : α) (entries : List (String × α)) :
    find? other (replace name value entries)
      = if other = name then some value else find? other entries := by
  induction entries with
  | nil => by_cases h : name = other <;> simp [replace, find?, h, eq_comm]
  | cons entry rest ih =>
    obtain ⟨key, old⟩ := entry
    by_cases hk : key = name
    · by_cases ho : key = other <;> simp_all [replace, find?, eq_comm]
    · by_cases ho : key = other
      · subst ho; simp [replace, find?, hk]
      · simp [replace, find?, hk, ho, ih]

/-- A binding changes the value of its own name and of no other. -/
@[simp] theorem get?_set (table : Table α) (name other : String) (value : α) :
    (table.set name value).get? other = if other = name then some value else table.get? other :=
  find?_replace name other value table.entries

end Table
end StackCalc
