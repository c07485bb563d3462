/-
  StackCalc.Clause

  The structure of a source text: a sequence of clauses, each a definition or a
  top-level term.  A reader goes over the lexemes once, with the constructs that
  are open at the moment.  It refuses a lexeme as soon as no continuation of the
  text could make it right, and `complaint` says why from the refused lexeme and
  from what was awaited.
-/

import StackCalc.Error

namespace StackCalc

/-- A top-level part of a text: a definition with its name and the words of its
    body, or a term, which is one item with all the words nested in it. -/
inductive Clause where
  | definition (name : Lexeme) (body : List Lexeme)
  | term (words : List Lexeme)
deriving DecidableEq, Repr

namespace Clause

/-! ## The reader -/

/-- An open construct: a block, or one of the two branches of a conditional. -/
inductive Construct where
  | block
  | consequent
  | alternative
deriving DecidableEq, Repr

/-- What has to come next. -/
inductive Awaited where
  | item
  | combinator
  | name
deriving DecidableEq, Repr

/-- Where in the text the reader is: between clauses or in a term, behind the
    opening bracket of a definition, or in the body of a definition. -/
inductive Section where
  | terms
  | opening
  | body (name : Lexeme)
deriving DecidableEq, Repr

/-- The state of the reader: the constructs that are open, innermost first, what is
    awaited, the words of the current clause, last first, and the clauses before
    it, last first. -/
structure Reader where
  division : Section
  opens : List Construct
  awaited : Awaited
  words : List Lexeme
  clauses : List Clause
deriving DecidableEq, Repr

namespace Reader

/-- The start of a text. -/
def start : Reader := ⟨.terms, [], .item, [], []⟩

/-- Nothing is open and nothing in particular is awaited. -/
def isSettled (reader : Reader) : Bool :=
  reader.opens.isEmpty && reader.awaited = .item

/-- Ends the current term if its item is complete. -/
def endTerm (reader : Reader) : Reader :=
  if reader.division = .terms && reader.isSettled then
    { reader with words := [], clauses := .term reader.words.reverse :: reader.clauses }
  else reader

/-- One more word of the current clause. -/
def take (reader : Reader) (x : Lexeme) (opens : List Construct) (awaited : Awaited) : Reader :=
  endTerm { reader with opens := opens, awaited := awaited, words := x :: reader.words }

/-- The reader behind a lexeme where an item may start or an open construct may go
    on, if the lexeme can stand there. -/
def stepItem? (reader : Reader) (x : Lexeme) : Option Reader :=
  match x.kind, reader.opens with
  | .number, opens | .symbol, opens | .word, opens => some (reader.take x opens .item)
  | .store, opens | .fetch, opens => some (reader.take x opens .name)
  | .blockOpen, opens => some (reader.take x (.block :: opens) .item)
  | .blockClose, .block :: opens => some (reader.take x opens .combinator)
  | .test, opens => some (reader.take x (.consequent :: opens) .item)
  | .alternative, .consequent :: opens => some (reader.take x (.alternative :: opens) .item)
  | .testEnd, .consequent :: opens | .testEnd, .alternative :: opens =>
    some (reader.take x opens .item)
  | .definitionStart, [] =>
    if reader.division = .terms then
      some { reader with division := .opening, awaited := .name }
    else none
  | .definitionEnd, [] =>
    match reader.division with
    | .body name =>
      some ⟨.terms, [], .item, [], .definition name reader.words.reverse :: reader.clauses⟩
    | _ => none
  | _, _ => none

/-- The reader behind a lexeme, if it can stand here. -/
def step? (reader : Reader) (x : Lexeme) : Option Reader :=
  match reader.awaited with
  | .item => reader.stepItem? x
  | .combinator =>
    if x.kind = .combinator then some (reader.take x reader.opens .item) else none
  | .name =>
    if x.kind = .word then
      if reader.division = .opening then
        some { reader with division := .body x, awaited := .item }
      else some (reader.take x reader.opens .item)
    else none

/-- Whether a text may end here. -/
def isComplete (reader : Reader) : Bool :=
  reader.division = .terms && reader.isSettled

end Reader

/-- What is wrong with a lexeme that was refused. -/
def complaint (awaited : Awaited) (x : Lexeme) : SourceProblem :=
  match x.kind with
  | .blockClose => .unmatched "]" "["
  | .definitionEnd => .unmatched ")" "("
  | .alternative | .testEnd => .outsideConditional x.text
  | .definitionStart => .nestedDefinition
  | kind =>
    if awaited = .combinator then .combinatorExpected x.text
    else if kind = .combinator then .combinatorMisplaced x.text
    else if awaited = .name then .nameExpected x.text
    else .unexpected x.text

/-- A lexeme that was refused, and why. -/
structure Refused where
  problem : SourceProblem
  lexeme : Lexeme
deriving DecidableEq, Repr

/-- The reader behind all lexemes, or the first that it refuses. -/
def Reader.run (reader : Reader) : List Lexeme → Except Refused Reader
  | [] => .ok reader
  | x :: rest =>
    match reader.step? x with
    | some next => next.run rest
    | none => .error ⟨complaint reader.awaited x, x⟩

/-- Lexemes can be read in two parts. -/
theorem Reader.run_append (reader : Reader) (xs ys : List Lexeme) :
    reader.run (xs ++ ys) = (reader.run xs).bind (·.run ys) := by
  induction xs generalizing reader with
  | nil => rfl
  | cons x rest ih =>
    rw [List.cons_append, Reader.run, Reader.run]
    cases reader.step? x with
    | none => rfl
    | some next => exact ih next

end Clause

/-! ## Whole texts -/

/-- The fault of a refused lexeme. -/
def Clause.Refused.fault (name : Option String) (refused : Clause.Refused) : SourceError :=
  { problem := refused.problem
    token := refused.lexeme.text
    name := name
    line := some refused.lexeme.line
    column := some refused.lexeme.column }

/-- The fault of a stray blank. -/
def Stray.fault (name : Option String) (stray : Stray) : SourceError :=
  { problem := .strayBlank stray
    token := ""
    name := name
    line := some stray.position.line
    column := some stray.position.column }

/-- The fault of a text that ends too early, at its last word. -/
def unfinishedFault (name : Option String) (last : Option Lexeme) : SourceError :=
  { problem := .unfinished
    token := ""
    name := name
    line := some ((last.map (·.line)).getD 1)
    column := some ((last.map (·.column)).getD 1) }

/-- The clauses of a text with a name.  A lexeme that cannot stand where it stands
    is reported before a stray blank behind it, and both before a text that ends
    too early. -/
def parse (source : String) (name : Option String) : Except SourceError (List Clause) :=
  let found := scan source
  match Clause.Reader.start.run found.lexemes with
  | .error refused => .error (refused.fault name)
  | .ok reader =>
    match found.stray with
    | some stray => .error (stray.fault name)
    | none =>
      if reader.isComplete then .ok reader.clauses.reverse
      else .error (unfinishedFault name found.lexemes.getLast?)

/-- The words of the top-level terms, in order. -/
def termWords (clauses : List Clause) : List Lexeme :=
  clauses.flatMap fun
    | .term words => words
    | .definition .. => []

/-- The definitions, in order. -/
def definitionsOf (clauses : List Clause) : List (Lexeme × List Lexeme) :=
  clauses.filterMap fun
    | .definition name body => some (name, body)
    | .term _ => none

end StackCalc
