/-
  StackCalc.Proofs.Documents

  Documents that are a list of entries, one on each line: a bare key, an equals sign
  between two blanks, and a value.  Such a document is read as its entries, in their
  order, if no key is there twice.
-/

import StackCalc.Proofs.Scalars

namespace StackCalc
namespace Toml

open StackCalc.Double

variable {key : String} {literal tail : List Char} {c : Char} {item : Value} {root : Entries}
  {room depth fuel : Nat}

/-! ## Values -/

/-- A value that does not begin as an array, a table, a text or a truth value is a scalar. -/
theorem value_scalar (h : c ∉ ['[', '\x7b', '"', Text.singleQuote, 't', 'f']) (roomy : room ≠ 0)
    (s : List Char) : value room (fuel + 1) (c :: s) = scalar (c :: s) := by
  simp only [List.mem_cons, not_or] at h
  obtain ⟨bracket, brace, quote, single, t, f, -⟩ := h
  unfold value
  rw [if_neg roomy]
  split
  · rename_i text
    exact absurd (List.cons.inj text).1 bracket
  · rename_i text
    exact absurd (List.cons.inj text).1 brace
  · rename_i text
    obtain ⟨rfl, rfl⟩ := List.cons.inj text
    simp [quote, single, expect?, Ne.symm t, Ne.symm f]
  · contradiction

theorem value_true (roomy : room ≠ 0) (s : List Char) :
    value room (fuel + 1) ('t' :: 'r' :: 'u' :: 'e' :: s) = .ok (.truth true, s) := by
  simp [value, roomy, expect?, Text.singleQuote]

theorem value_false (roomy : room ≠ 0) (s : List Char) :
    value room (fuel + 1) ('f' :: 'a' :: 'l' :: 's' :: 'e' :: s) = .ok (.truth false, s) := by
  simp [value, roomy, expect?, Text.singleQuote]

/-- A text that is read as a value wherever it ends a line.  It begins with no blank, and no
    carriage return breaks it. -/
structure Spells (literal : List Char) (item : Value) : Prop where
  reads : ∀ fuel tail,
    value nestingRoom (fuel + 1) (literal ++ '\n' :: tail) = .ok (item, '\n' :: tail)
  solid : ∀ c ∈ literal.head?, isSpace c = false
  unbroken : '\r' ∉ literal
  plain : item.isContainer = false

theorem spells_true : Spells ['t', 'r', 'u', 'e'] (.truth true) :=
  ⟨fun _ tail => value_true (by decide) ('\n' :: tail), by simp [isSpace], by simp, rfl⟩

theorem spells_false : Spells ['f', 'a', 'l', 's', 'e'] (.truth false) :=
  ⟨fun _ tail => value_false (by decide) ('\n' :: tail), by simp [isSpace], by simp, rfl⟩

/-- A number spells what it is read as. -/
theorem spells_scalar (begins : ∃ c rest, literal = c :: rest ∧ (c.isDigit ∨ c ∈ ['-', 'i', 'n']))
    (reads : ∀ tail, scalar (literal ++ '\n' :: tail) = .ok (item, '\n' :: tail))
    (unbroken : '\r' ∉ literal) (plain : item.isContainer = false) : Spells literal item := by
  obtain ⟨c, rest, rfl, first⟩ := begins
  have other : c ∉ ['[', '\x7b', '"', Text.singleQuote, 't', 'f'] ∧ isSpace c = false := by
    rcases first with digit | among
    · have apart (d : Char) (h : d.isDigit = false) : c ≠ d := ne_of_isDigit digit h
      constructor
      · simp only [List.mem_cons, List.not_mem_nil, or_false, not_or]
        exact ⟨apart _ rfl, apart _ rfl, apart _ rfl, apart _ rfl, apart _ rfl, apart _ rfl⟩
      · simp [isSpace, apart ' ' rfl, apart '\t' rfl]
    · fin_cases among <;> decide
  exact
    { reads := fun fuel tail => (value_scalar other.1 (by decide) _).trans (reads tail)
      solid := fun c' found => Option.some.inj found ▸ other.2
      unbroken := unbroken
      plain := plain }

theorem spells_shortest (x : Float) : Spells (shortestIn .plain x) (.real x) :=
  spells_scalar (shortestIn_begins .plain x) (scalar_shortestIn .plain x)
    (fun carriage => absurd (mem_shortestIn carriage) (by decide)) rfl

theorem spells_integer {n : Int} (short : (Nat.toDigits 10 n.natAbs).length ≤ Text.digitLimit) :
    Spells (toString n).toList (.integer n) := by
  have unbroken : '\r' ∉ (toString n).toList := by
    have digits : '\r' ∉ Nat.toDigits 10 n.natAbs := fun carriage =>
      absurd (isDigit_of_mem_toDigits carriage) (by decide)
    rw [toString_int]
    cases decide (n < 0) with
    | false => exact digits
    | true => simpa [signed] using digits
  refine spells_scalar ?_ (scalar_integer short) unbroken rfl
  obtain ⟨c, rest, digits⟩ := List.exists_cons_of_ne_nil (isWhole_toDigits n.natAbs).ne_nil
  have digit : c.isDigit := (isWhole_toDigits n.natAbs).isDigit c (digits ▸ List.mem_cons_self)
  rw [toString_int, digits]
  cases decide (n < 0) with
  | false => exact ⟨c, rest, rfl, .inl digit⟩
  | true => exact ⟨'-', c :: rest, rfl, by simp⟩

/-! ## Lines -/

/-- A line with an entry. -/
def entryLine (key : String) (literal : List Char) : List Char :=
  key.toList ++ ' ' :: '=' :: ' ' :: literal ++ ['\n']

/-- A key that needs no quotes. -/
def IsBare (key : String) : Prop := key.toList ≠ [] ∧ ∀ c ∈ key.toList, isBareKey c

instance : DecidablePred IsBare := fun key =>
  decidable_of_iff (key.toList ≠ [] ∧ key.toList.all isBareKey) (by simp [IsBare])

theorem key?_bare (bare : IsBare key) (fuel : Nat) (s : List Char) :
    key? (fuel + 1) (key.toList ++ ' ' :: '=' :: s) = some ([key], '=' :: s) := by
  obtain ⟨ne_nil, all⟩ := bare
  have part : keyPart? (key.toList ++ ' ' :: '=' :: s) = some (key, ' ' :: '=' :: s) := by
    have blank : isBareKey ' ' = false := by decide
    have taken : (key.toList ++ ' ' :: '=' :: s).takeWhile isBareKey = key.toList := by
      rw [List.takeWhile_append_of_pos all, List.takeWhile_cons, blank]
      simp
    have left : (key.toList ++ ' ' :: '=' :: s).dropWhile isBareKey = ' ' :: '=' :: s := by
      rw [List.dropWhile_append_of_pos all, List.dropWhile_cons, blank]
      simp
    obtain ⟨c, rest, whole⟩ := List.exists_cons_of_ne_nil ne_nil
    have first : isBareKey c := all c (whole ▸ List.mem_cons_self)
    have spelled : String.ofList (c :: rest) = key := by rw [← whole, String.ofList_toList]
    rw [whole, List.cons_append] at taken left ⊢
    simp only [keyPart?, if_pos first, taken, left, spelled]
  simp [key?, part, skipSpaces, isSpace]

theorem lookup_new (new : key ∉ root.map (·.1)) : lookup key root = none := by
  have none : root.find? (·.1 = key) = none := by
    rw [List.find?_eq_none]
    intro entry found
    simpa using fun same : entry.1 = key => new (same ▸ List.mem_map_of_mem found)
  rw [lookup, none]
  rfl

theorem insert_new (new : key ∉ root.map (·.1)) : insert key item root = root ++ [(key, item)] := by
  induction root with
  | nil => rfl
  | cons entry root ih =>
    simp only [List.map_cons, List.mem_cons, not_or] at new
    rw [insert, if_neg (Ne.symm new.1), ih new.2]
    rfl

/-- An entry of a document without headers is put into the root table, behind those before. -/
theorem assign_root (new : key ∉ root.map (·.1)) (plain : item.isContainer = false) :
    assign ⟨root, .none, []⟩ [key] item = some ⟨root ++ [(key, item)], .none, []⟩ := by
  have added : addNew key item root = some (root ++ [(key, item)]) := by
    simp [addNew, lookup_new new, insert_new new]
  simp [assign, pathsWithin, Marks.has, Marks.none, modify, added, plain]

theorem skipSpaces_solid {s : List Char} (h : ∀ c ∈ s.head?, isSpace c = false) :
    skipSpaces s = s := by
  cases s with
  | nil => rfl
  | cons c s => rw [skipSpaces, List.dropWhile_cons, h c rfl]; rfl

theorem skipSpaces_literal (spells : Spells literal item) (tail : List Char) :
    skipSpaces (' ' :: literal ++ '\n' :: tail) = literal ++ '\n' :: tail := by
  have solid : skipSpaces (literal ++ '\n' :: tail) = literal ++ '\n' :: tail := by
    refine skipSpaces_solid fun c first => ?_
    cases literal with
    | nil =>
      obtain rfl : '\n' = c := Option.some.inj first
      rfl
    | cons c' literal => exact spells.solid c first
  exact solid

theorem entryLine_append (key : String) (literal tail : List Char) :
    entryLine key literal ++ tail
      = key.toList ++ ' ' :: '=' :: (' ' :: literal ++ '\n' :: tail) := by
  simp [entryLine]

theorem bare_begins (bare : IsBare key) (s : List Char) :
    ∃ c rest, key.toList ++ s = c :: rest ∧ isBareKey c := by
  obtain ⟨ne_nil, all⟩ := bare
  obtain ⟨c, rest, whole⟩ := List.exists_cons_of_ne_nil ne_nil
  exact ⟨c, rest ++ s, by rw [whole, List.cons_append], all c (whole ▸ List.mem_cons_self)⟩

theorem ne_of_isBareKey {d : Char} (h : isBareKey c) (other : isBareKey d = false) : c ≠ d := by
  rintro rfl
  rw [other] at h
  contradiction

theorem statement_entry (bare : IsBare key) (spells : Spells literal item)
    (new : key ∉ root.map (·.1)) (depth : Nat) (tail : List Char) :
    statement (depth + 1) ⟨root, .none, []⟩ (entryLine key literal ++ tail)
      = .ok (⟨root ++ [(key, item)], .none, []⟩, '\n' :: tail) := by
  have read := key?_bare bare depth (' ' :: literal ++ '\n' :: tail)
  obtain ⟨c, rest, text, first⟩ := bare_begins bare (' ' :: '=' :: (' ' :: literal ++ '\n' :: tail))
  have bracket : c ≠ '[' := ne_of_isBareKey first (by decide)
  have hash : c ≠ '#' := ne_of_isBareKey first (by decide)
  have equals : expect? ['='] ('=' :: (' ' :: literal ++ '\n' :: tail))
      = some (' ' :: literal ++ '\n' :: tail) := rfl
  rw [entryLine_append]
  rw [text] at read ⊢
  unfold statement
  split
  · rename_i text
    exact absurd (List.cons.inj text).1 bracket
  · rename_i text
    exact absurd (List.cons.inj text).1 bracket
  · rename_i text
    exact absurd (List.cons.inj text).1 hash
  · have value := spells.reads depth tail
    have blank : skipSpaces ('\n' :: tail) = '\n' :: tail := rfl
    have assigned := assign_root new spells.plain
    simp only [read, required, equals, skipSpaces_literal spells, value, assigned, blank, bind,
      Except.bind]

theorem solid_of_isBareKey (h : isBareKey c) : isSpace c = false := by
  have blank : c ≠ ' ' := ne_of_isBareKey h (by decide)
  have tab : c ≠ '\t' := ne_of_isBareKey h (by decide)
  simp [isSpace, blank, tab]

/-- A line with an entry adds it to the entries before. -/
theorem lines_entry (bare : IsBare key) (spells : Spells literal item)
    (new : key ∉ root.map (·.1)) (depth fuel : Nat) (tail : List Char) :
    lines (depth + 1) (fuel + 1) ⟨root, .none, []⟩ (entryLine key literal ++ tail)
      = lines (depth + 1) fuel ⟨root ++ [(key, item)], .none, []⟩ tail := by
  have read := statement_entry bare spells new depth tail
  obtain ⟨c, rest, text, first⟩ := bare_begins bare (' ' :: '=' :: (' ' :: literal ++ '\n' :: tail))
  have solid : skipSpaces (c :: rest) = c :: rest :=
    skipSpaces_solid fun c' found => Option.some.inj found ▸ solid_of_isBareKey first
  have newline : c ≠ '\n' := ne_of_isBareKey first (by decide)
  rw [entryLine_append, text] at read ⊢
  rw [lines, solid]
  split
  · contradiction
  · rename_i text
    exact absurd (List.cons.inj text).1 newline
  · rw [read]
    rfl

theorem lines_entries {entries : List (String × List Char × Value)}
    (bare : ∀ entry ∈ entries, IsBare entry.1)
    (spells : ∀ entry ∈ entries, Spells entry.2.1 entry.2.2)
    (distinct : (root.map (·.1) ++ entries.map (·.1)).Nodup) (enough : entries.length < fuel) :
    lines (depth + 1) fuel ⟨root, .none, []⟩
        (entries.flatMap fun entry => entryLine entry.1 entry.2.1)
      = .ok ⟨root ++ entries.map fun entry => (entry.1, entry.2.2), .none, []⟩ := by
  -- on the entries that are left, while those before are in the root table already
  induction entries generalizing root fuel with
  | nil =>
    obtain ⟨fuel, rfl⟩ := Nat.exists_eq_succ_of_ne_zero (Nat.ne_of_gt enough)
    simp [lines, skipSpaces]
  | cons entry entries ih =>
    obtain ⟨key, literal, item⟩ := entry
    obtain ⟨fuel, rfl⟩ := Nat.exists_eq_succ_of_ne_zero (Nat.ne_of_gt (Nat.zero_lt_of_lt enough))
    have new : key ∉ root.map (·.1) := fun found =>
      List.disjoint_of_nodup_append distinct found (by simp)
    have bare' : IsBare key := bare _ List.mem_cons_self
    have spells' : Spells literal item := spells _ List.mem_cons_self
    have rest := @ih (root ++ [(key, item)]) fuel
      (fun entry found => bare entry (List.mem_cons_of_mem _ found))
      (fun entry found => spells entry (List.mem_cons_of_mem _ found))
      (by simpa using distinct) (by simpa using enough)
    rw [List.flatMap_cons, lines_entry bare' spells' new, rest]
    simp

theorem carriage_not_mem_entryLine (bare : IsBare key) (spells : Spells literal item) :
    '\r' ∉ entryLine key literal := by
  have named : '\r' ∉ key.toList := fun carriage => absurd (bare.2 _ carriage) (by decide)
  simp [entryLine, named, spells.unbroken]

/-- A document that is a list of entries is read as this list. -/
theorem document_entries {entries : List (String × List Char × Value)}
    (bare : ∀ entry ∈ entries, IsBare entry.1)
    (spells : ∀ entry ∈ entries, Spells entry.2.1 entry.2.2)
    (distinct : (entries.map (·.1)).Nodup) {source : String}
    (text : source.toList = entries.flatMap fun entry => entryLine entry.1 entry.2.1) :
    document source = .ok (entries.map fun entry => (entry.1, entry.2.2)) := by
  -- every line takes a character at least, so that the fuel lasts for all of them
  have enough : entries.length < source.toList.length + 2 := by
    have lengths := List.length_le_sum_of_one_le
      (entries.map fun entry => (entryLine entry.1 entry.2.1).length) fun n found => by
        obtain ⟨entry, -, rfl⟩ := List.mem_map.1 found
        simp [entryLine]
        omega
    rw [List.length_map] at lengths
    rw [text, List.length_flatMap]
    omega
  rw [document, text, lines_entries bare spells (by simpa using distinct) (by rwa [text] at enough)]
  rfl

end Toml
end StackCalc
