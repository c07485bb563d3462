/-
  StackCalc.Proofs.DistinctKeys

  The keys of the root table of a document are distinct: an entry is replaced where its
  key is there already and added at the end otherwise, and every statement changes the
  root table in this way only.  In a table with distinct keys the value of a key does not
  depend on the order of the entries.
-/

import StackCalc.Proofs.Documents

namespace StackCalc
namespace Toml

variable {key : String} {item : Value} {entries other : Entries}

/-! ## Looking up -/

theorem lookup_cons_self (key : String) (item : Value) (entries : Entries) :
    lookup key ((key, item) :: entries) = some item := by
  simp [lookup]

theorem lookup_cons_of_ne {name : String} (h : name ≠ key) :
    lookup key ((name, item) :: entries) = lookup key entries := by
  simp [lookup, h]

/-- Where keys are distinct, an entry is what is found for its key. -/
theorem lookup_eq_some_iff (distinct : (entries.map (·.1)).Nodup) :
    lookup key entries = some item ↔ (key, item) ∈ entries := by
  induction entries with
  | nil => simp [lookup]
  | cons entry entries ih =>
    obtain ⟨name, first⟩ := entry
    obtain ⟨new, distinct⟩ := List.nodup_cons.1 distinct
    by_cases same : name = key
    · subst same
      have behind : (name, item) ∉ entries := fun found =>
        new (List.mem_map_of_mem (f := (·.1)) found)
      simp [lookup_cons_self, behind, eq_comm]
    · rw [lookup_cons_of_ne same, ih distinct]
      simp [Ne.symm same]

/-- The order of the entries does not matter for what is found. -/
theorem lookup_perm (distinct : (entries.map (·.1)).Nodup) (perm : other.Perm entries)
    (key : String) : lookup key other = lookup key entries := by
  have distinct' : (other.map (·.1)).Nodup := (perm.map _).nodup_iff.2 distinct
  refine Option.ext fun item => ?_
  rw [lookup_eq_some_iff distinct, lookup_eq_some_iff distinct', perm.mem_iff]

/-! ## Changing a table -/

theorem keys_insert (key : String) (item : Value) (entries : Entries) :
    (insert key item entries).map (·.1)
      = if key ∈ entries.map (·.1) then entries.map (·.1) else entries.map (·.1) ++ [key] := by
  induction entries with
  | nil => rfl
  | cons entry entries ih =>
    obtain ⟨name, old⟩ := entry
    by_cases same : name = key
    · simp [insert, same]
    · rw [insert, if_neg same, List.map_cons, ih]
      simp only [List.map_cons, List.mem_cons, Ne.symm same, false_or]
      split <;> rfl

theorem distinct_insert (distinct : (entries.map (·.1)).Nodup) (key : String) (item : Value) :
    ((insert key item entries).map (·.1)).Nodup := by
  rw [keys_insert]
  split
  · exact distinct
  · rename_i new
    exact List.nodup_append.2 ⟨distinct, List.nodup_singleton key, by
      rintro name found _ (_ | ⟨_, ⟨⟩⟩) rfl
      exact new found⟩

/-- A change that keeps keys distinct. -/
def KeepsDistinct (change : Entries → Option Entries) : Prop :=
  ∀ before after, (before.map (·.1)).Nodup → change before = some after → (after.map (·.1)).Nodup

theorem keepsDistinct_some : KeepsDistinct some := by
  rintro before _ distinct ⟨⟩
  exact distinct

theorem keepsDistinct_addNew (key : String) (item : Value) : KeepsDistinct (addNew key item) := by
  intro before after distinct added
  rw [addNew] at added
  split at added
  · contradiction
  · cases added
    exact distinct_insert distinct key item

theorem keepsDistinct_appendTable (key : String) : KeepsDistinct (appendTable key) := by
  intro before after distinct appended
  unfold appendTable at appended
  split at appended
  · cases appended
    exact distinct_insert distinct key _
  · cases appended
    exact distinct_insert distinct key _
  · contradiction

/-- Above the end of a path, a change only gives the first key of the path another value. -/
theorem modify_cons {change : Entries → Option Entries} {intoArrays : Bool} {path : List String}
    {after : Entries} (h : modify intoArrays change (key :: path) entries = some after) :
    ∃ item, after = insert key item entries := by
  rw [modify] at h
  split at h
  · obtain ⟨child, -, rfl⟩ := Option.map_eq_some_iff.1 h
    exact ⟨_, rfl⟩
  · obtain ⟨child, -, rfl⟩ := Option.map_eq_some_iff.1 h
    exact ⟨_, rfl⟩
  · split at h
    · obtain ⟨child, -, rfl⟩ := Option.map_eq_some_iff.1 h
      exact ⟨_, rfl⟩
    · contradiction
  · contradiction

theorem keepsDistinct_modify {change : Entries → Option Entries} (keeps : KeepsDistinct change)
    (intoArrays : Bool) (path : List String) : KeepsDistinct (modify intoArrays change path) := by
  intro before after distinct changed
  cases path with
  | nil => exact keeps before after distinct (by rwa [modify] at changed)
  | cons key path =>
    obtain ⟨item, rfl⟩ := modify_cons changed
    exact distinct_insert distinct key item

/-! ## Statements -/

variable {state after : State}

theorem distinct_assign {path : List String} (distinct : (state.root.map (·.1)).Nodup)
    (h : assign state path item = some after) : (after.root.map (·.1)).Nodup := by
  rw [assign] at h
  split at h
  · contradiction
  · obtain ⟨root, changed, rfl⟩ := Option.map_eq_some_iff.1 h
    exact keepsDistinct_modify (keepsDistinct_addNew _ item) _ _ _ _ distinct changed

theorem distinct_startTable {path : List String} (distinct : (state.root.map (·.1)).Nodup)
    (h : startTable state path = some after) : (after.root.map (·.1)).Nodup := by
  rw [startTable] at h
  split at h
  · contradiction
  · obtain ⟨root, changed, rfl⟩ := Option.map_eq_some_iff.1 h
    exact keepsDistinct_modify keepsDistinct_some _ _ _ _ distinct changed

theorem distinct_startItem {path : List String} (distinct : (state.root.map (·.1)).Nodup)
    (h : startItem state path = some after) : (after.root.map (·.1)).Nodup := by
  rw [startItem] at h
  split at h
  · contradiction
  · obtain ⟨root, changed, rfl⟩ := Option.map_eq_some_iff.1 h
    exact keepsDistinct_modify (keepsDistinct_appendTable _) _ _ _ _ distinct changed

theorem required_eq_ok {α : Type} {found : Option α} {a : α} :
    required found = .ok a ↔ found = some a := by
  cases found <;> simp [required]

theorem bind_eq_ok {α β : Type} {p : Except Defect α} {f : α → Except Defect β} {b : β} :
    (p >>= f) = .ok b ↔ ∃ a, p = .ok a ∧ f a = .ok b := by
  cases p <;> simp [bind, Except.bind]

/-- A statement keeps the keys of the root table distinct. -/
theorem distinct_statement {fuel : Nat} {s rest : List Char}
    (distinct : (state.root.map (·.1)).Nodup) (h : statement fuel state s = .ok (after, rest)) :
    (after.root.map (·.1)).Nodup := by
  unfold statement at h
  split at h
  · simp only [required_eq_ok, Option.bind_eq_bind, Option.bind_eq_some_iff] at h
    obtain ⟨header, -, started, next, rest, -, ⟨⟩⟩ := h
    refine distinct_startItem ?_ next
    exact distinct
  · simp only [required_eq_ok, Option.bind_eq_bind, Option.bind_eq_some_iff] at h
    obtain ⟨header, -, started, next, rest, -, ⟨⟩⟩ := h
    refine distinct_startTable ?_ next
    exact distinct
  · cases h
    exact distinct
  · simp only [bind_eq_ok, required_eq_ok] at h
    obtain ⟨read, -, rest, -, found, -, state', assigned, ⟨⟩⟩ := h
    exact distinct_assign distinct assigned

theorem distinct_lines {depth fuel : Nat} {s : List Char} (distinct : (state.root.map (·.1)).Nodup)
    (h : lines depth fuel state s = .ok after) : (after.root.map (·.1)).Nodup := by
  -- on the lines that are left, each of which is empty or one statement
  induction fuel generalizing state s with
  | zero => cases h
  | succ fuel ih =>
    rw [lines] at h
    split at h
    · cases h
      exact distinct
    · exact ih distinct h
    · split at h
      · contradiction
      · rename_i next rest said
        have kept := distinct_statement distinct said
        split at h
        · cases h
          exact kept
        · exact ih kept h
        · contradiction

/-- The keys of a document are distinct. -/
theorem distinct_document {source : String} (h : document source = .ok entries) :
    (entries.map (·.1)).Nodup := by
  rw [document] at h
  generalize ran : lines _ _ _ _ = result at h
  cases result with
  | error defect => cases h
  | ok state =>
    cases h
    refine distinct_lines ?_ ran
    exact List.nodup_nil

end Toml
end StackCalc
