/-
  StackCalc.Toml.Document

  Whole TOML documents: arrays, inline tables, and the statements that build the
  root table.  Some tables are closed to later statements; `Marks` remembers which.
-/

import StackCalc.Toml.Moment

namespace StackCalc
namespace Toml

/-- The entries of a table. -/
abbrev Entries := List (String × Value)

/-! ## Nested tables -/

/-- The value of a key. -/
def lookup (key : String) (entries : Entries) : Option Value :=
  (entries.find? (·.1 = key)).map (·.2)

/-- The entries with the value of a key replaced, or added at the end. -/
def insert (key : String) (value : Value) : Entries → Entries
  | [] => [(key, value)]
  | (k, old) :: rest =>
    if k = key then (k, value) :: rest else (k, old) :: insert key value rest

/-- Changes the table at the end of a path, making the tables on the way that are
    not there yet.  `intoArrays` says whether the path may lead through the last
    table of an array. -/
def modify (intoArrays : Bool) (change : Entries → Option Entries) :
    List String → Entries → Option Entries
  | [], entries => change entries
  | key :: path, entries =>
    match lookup key entries with
    | none => (modify intoArrays change path []).map fun child => insert key (.table child) entries
    | some (.table child) =>
      (modify intoArrays change path child).map fun child => insert key (.table child) entries
    | some (.array items) =>
      match intoArrays, items.getLast? with
      | true, some (.table child) =>
        (modify intoArrays change path child).map fun child =>
          insert key (.array (items.dropLast ++ [.table child])) entries
      | _, _ => none
    | some _ => none

/-- Adds an entry for a key that has none yet. -/
def addNew (key : String) (value : Value) (entries : Entries) : Option Entries :=
  if (lookup key entries).isSome then none else some (insert key value entries)

/-- Adds an empty table to the array of a key, which is made if it is not there. -/
def appendTable (key : String) (entries : Entries) : Option Entries :=
  match lookup key entries with
  | none => some (insert key (.array [.table []]) entries)
  | some (.array items) => some (insert key (.array (items ++ [.table []])) entries)
  | some _ => none

/-! ## Closed tables -/

/-- How a table is closed: it was declared and must not be declared again, or it was
    written out whole and must not change, nor anything inside it. -/
inductive Closing where
  | declared
  | frozen
deriving DecidableEq, Repr

/-- The tables that are closed, and the declarations that count only from the next
    header on. -/
structure Marks where
  set : List (List String × Closing)
  pending : List (List String)

namespace Marks

/-- Nothing is closed. -/
def none : Marks := ⟨[], []⟩

/-- Whether a table is closed: itself, or by being inside one that is frozen. -/
def has (marks : Marks) (path : List String) (closing : Closing) : Bool :=
  marks.set.any fun (key, kind) =>
    kind = closing && (key = path || (kind = .frozen && key.isPrefixOf path))

/-- One more closed table. -/
def add (marks : Marks) (path : List String) (closing : Closing) : Marks :=
  { marks with set := (path, closing) :: marks.set }

/-- Forgets a table and all tables inside it. -/
def clear (marks : Marks) (path : List String) : Marks :=
  { marks with set := marks.set.filter fun (key, _) => !path.isPrefixOf key }

/-- Lets the pending declarations count. -/
def settle (marks : Marks) : Marks :=
  ⟨marks.pending.map (·, .declared) ++ marks.set, []⟩

end Marks

/-! ## Values -/

/-- How many nested calls there is room for while a document is read.  An array takes two
    of them for its items, an inline table takes three. -/
def nestingRoom : Nat := 9985

mutual

/-- A value, where there is `room` for nested ones; `fuel` bounds the depth and the number
    of items. -/
def value (room : Nat) : Nat → List Char → Except Defect (Value × List Char)
  | 0, _ => .error .malformed
  | fuel + 1, s =>
    if room = 0 then .error .tooDeep
    else
      match s with
      | '[' :: rest =>
        match skipLines? fuel rest with
        | some rest => items (room - 2) fuel [] rest
        | none => .error .malformed
      | '\x7b' :: rest =>
        match skipSpaces rest with
        | '\x7d' :: tail => .ok (.table [], tail)
        | tail => inline (room - 3) fuel [] [] tail
      | c :: _ =>
        if c = '"' || c = Text.singleQuote then
          (required (string? s)).map fun (body, rest) => (.text (String.ofList body), rest)
        else
          match expect? ['t', 'r', 'u', 'e'] s, expect? ['f', 'a', 'l', 's', 'e'] s with
          | some rest, _ => .ok (.truth true, rest)
          | _, some rest => .ok (.truth false, rest)
          | _, _ => scalar s
      | [] => .error .malformed

/-- The items of an array up to its closing bracket; `done` holds those before, last
    first. -/
def items (room : Nat) : Nat → List Value → List Char → Except Defect (Value × List Char)
  | 0, _, _ => .error .malformed
  | fuel + 1, done, s =>
    match s with
    | ']' :: rest => .ok (.array done.reverse, rest)
    | _ =>
      match value room fuel s with
      | .error defect => .error defect
      | .ok (item, rest) =>
        match skipLines? fuel rest with
        | some (']' :: tail) => .ok (.array (item :: done).reverse, tail)
        | some (',' :: tail) =>
          match skipLines? fuel tail with
          | some next => items room fuel (item :: done) next
          | none => .error .malformed
        | _ => .error .malformed

/-- The entries of an inline table up to its closing brace. -/
def inline (room : Nat) :
    Nat → Entries → List (List String) → List Char → Except Defect (Value × List Char)
  | 0, _, _, _ => .error .malformed
  | fuel + 1, entries, frozen, s =>
    match key? fuel s with
    | some (key, '=' :: rest) =>
      match value room fuel (skipSpaces rest) with
      | .error defect => .error defect
      | .ok (item, rest) =>
        if frozen.any (·.isPrefixOf key) then .error .malformed
        else
          match modify false (addNew (key.getLastD "") item) key.dropLast entries with
          | none => .error .malformed
          | some entries =>
            match skipSpaces rest with
            | '\x7d' :: tail => .ok (.table entries, tail)
            | ',' :: tail =>
              inline room fuel entries (if item.isContainer then key :: frozen else frozen)
                (skipSpaces tail)
            | _ => .error .malformed
    | _ => .error .malformed

end

/-! ## Statements -/

/-- A document while it is read: the root table, the closed tables, and the path of
    the current header. -/
structure State where
  root : Entries
  marks : Marks
  header : List String

/-- The paths of the tables that a dotted key goes through. -/
def pathsWithin (header key : List String) : List (List String) :=
  (List.range (key.length - 1)).map fun i => header ++ key.take (i + 1)

/-- Enters a value under a key of the current table. -/
def assign (state : State) (key : List String) (value : Value) : Option State :=
  let within := pathsWithin state.header key
  let parent := state.header ++ key.dropLast
  if within.any (state.marks.has · .declared) || state.marks.has parent .frozen then none
  else
    (modify true (addNew (key.getLastD "") value) parent state.root).map fun root =>
      let marks := { state.marks with pending := within ++ state.marks.pending }
      { state with
        root := root
        marks := if value.isContainer then marks.add (state.header ++ key) .frozen else marks }

/-- Starts a table. -/
def startTable (state : State) (key : List String) : Option State :=
  if state.marks.has key .declared || state.marks.has key .frozen then none
  else
    (modify true some key state.root).map fun root =>
      { root := root, marks := state.marks.add key .declared, header := key }

/-- Starts the next table of an array of tables. -/
def startItem (state : State) (key : List String) : Option State :=
  if state.marks.has key .frozen then none
  else
    (modify true (appendTable (key.getLastD "")) key.dropLast state.root).map fun root =>
      { root := root, marks := (state.marks.clear key).add key .declared, header := key }

/-- The statement at the start of a line, and the rest of the line behind it. -/
def statement (fuel : Nat) (state : State) (s : List Char) : Except Defect (State × List Char) :=
  match s with
  | '[' :: '[' :: rest => required do
    let (key, rest) ← key? fuel (skipSpaces rest)
    let state ← startItem { state with marks := state.marks.settle } key
    some (state, skipSpaces (← expect? [']', ']'] rest))
  | '[' :: rest => required do
    let (key, rest) ← key? fuel (skipSpaces rest)
    let state ← startTable { state with marks := state.marks.settle } key
    some (state, skipSpaces (← expect? [']'] rest))
  | '#' :: _ => .ok (state, s)
  | _ => do
    let (key, rest) ← required (key? fuel s)
    let rest ← required (expect? ['='] rest)
    let (item, rest) ← value nestingRoom fuel (skipSpaces rest)
    let state ← required (assign state key item)
    .ok (state, skipSpaces rest)

/-- The document behind all lines of a text, at most `fuel` of them. -/
def lines (depth : Nat) : Nat → State → List Char → Except Defect State
  | 0, _, _ => .error .malformed
  | fuel + 1, state, s =>
    match skipSpaces s with
    | [] => .ok state
    | '\n' :: rest => lines depth fuel state rest
    | text =>
      match statement depth state text with
      | .error defect => .error defect
      | .ok (state, rest) =>
        match skipComment? rest with
        | some [] => .ok state
        | some ('\n' :: tail) => lines depth fuel state tail
        | _ => .error .malformed

/-- The root table of a document, whose lines end with line feeds, or its first
    defect. -/
def document (source : String) : Except Defect Entries :=
  let text := source.toList
  (lines (2 * text.length + 2) (text.length + 2) ⟨[], .none, []⟩ text).map (·.root)

end Toml
end StackCalc
