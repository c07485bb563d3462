/-
  StackCalc.Proofs.SameWords

  Runs of the same words.  What a text means depends on its words, not on where they stand nor on
  the name of the text: two texts without stray blanks that have the same words are parsed to the
  same clauses or refused for the same reason (`parse_same`), and run to the same result, with
  the same traces, lines and remarks, but for the places in an error and in the definitions that
  are left (`run_same`).
-/

import StackCalc.Proofs.Pieces

namespace StackCalc

open Clause

/-! ## Traces -/

section

variable {f : Place → Place}

namespace Node

mutual

theorem quoted_relocate (node : Node) : (node.relocate f).quoted = node.quoted := by
  cases node with
  | block body combinator place => rw [relocate, quoted, quoted, quotedAll_relocate body]
  | cell c => rfl
  | word name place => rfl
  | branch test consequent alternative place => rfl
  | store name place => rfl
  | fetch name place => rfl

theorem quotedAll_relocate (nodes : List Node) :
    quotedAll (relocateAll f nodes) = quotedAll nodes := by
  cases nodes with
  | nil => rfl
  | cons node rest =>
    rw [relocateAll, quotedAll, quotedAll, quoted_relocate node, quotedAll_relocate rest]

end

theorem shown_relocate (node : Node) : (node.relocate f).shown = node.shown := by
  cases node with
  | cell c => rfl
  | _ => exact quoted_relocate _

end Node

/-- A definition is traced wherever it stands. -/
theorem isNotable_relocate (library : Library) (node : Node) :
    isNotable library.unplaced (node.relocate f) = isNotable library node := by
  cases node with
  | word name place => exact Table.contains_map Program.unplaced library.definitions name
  | _ => rfl

end

section

variable {setting setting' : Setting} {nodes nodes' : List Node}

/-- The line of a trace shows no places. -/
theorem traceLine_unplaced (step : Nat) (nodes : List Node) (stack : Stack) :
    traceLine step (Node.unplacedAll nodes) stack = traceLine step nodes stack := by
  have hshown : (Node.unplacedAll nodes).map Node.shown = nodes.map Node.shown := by
    rw [Node.unplacedAll, Node.relocateAll_eq_map, List.map_map]
    exact List.map_congr_left fun node _ => Node.shown_relocate node
  have hempty : (Node.unplacedAll nodes).isEmpty = nodes.isEmpty := by
    cases nodes <;> rfl
  simp only [traceLine, traceColumns, hshown, hempty]

/-- Whether a step is traced does not depend on places. -/
theorem any_isNotable_unplaced (library : Library) (nodes : List Node) :
    (Node.unplacedAll nodes).head?.any (isNotable library.unplaced)
      = nodes.head?.any (isNotable library) := by
  cases nodes with
  | nil => rfl
  | cons node rest => exact isNotable_relocate library node

/-- A word is traced if it stands for a definition, so it is traced in both of two libraries that
    agree. -/
theorem isNotable_agrees {library library' : Library} (h : library.Agrees library') :
    isNotable library = isNotable library' := by
  funext node
  cases node with
  | word name place =>
    have hbound := congrArg Option.isSome (h.definitions name)
    rwa [Option.isSome_map, Option.isSome_map] at hbound
  | _ => rfl

/-- Runs of like programs leave the same machine, with the same traces, if they are traced
    alike. -/
theorem eq_follows (hlike : setting.Like setting')
    (hverbosity : setting.verbosity = setting'.verbosity) :
    Machine.Follows (· = ·) setting setting' where
  memory h := congrArg Machine.memory h
  store h _ := by rw [h]
  print h _ := by rw [h]
  draw h := by rw [h]; exact ⟨rfl, rfl⟩
  traced {m n} h step nodes nodes' stack hnodes := by
    subst h
    have hline : traceLine step nodes stack = traceLine step nodes' stack := by
      rw [← traceLine_unplaced, hnodes, traceLine_unplaced]
    have hnotable : nodes.head?.any (isNotable setting.library)
        = nodes'.head?.any (isNotable setting'.library) := by
      rw [isNotable_agrees hlike.library, ← any_isNotable_unplaced, hnodes, any_isNotable_unplaced]
    simp only [StackCalc.traced, hverbosity, hline, hnotable]
  finished {m n} h step stack := by
    subst h
    simp only [StackCalc.finished, hverbosity]

end

/-! ## Outcomes -/

/-- Two outcomes that only places tell apart, with the same printed text and the same remarks. -/
structure Outcome.Same {α : Type} (x y : Outcome α) : Prop extends Outcome.Like x y where
  printed : x.printed = y.printed
  remarks : x.remarks = y.remarks

namespace Session

variable {session session' : Session} {name name' : Option String}

theorem settle_same {α : Type} (hlike : session.Like session') {x y : Reply α}
    (h : Reply.Like (· = ·) x y) {remarks remarks' : String} (hremarks : remarks = remarks') :
    (session.settle remarks x).Same (session'.settle remarks' y) := by
  have hmachine : x.2 = y.2 := h.machines
  refine ⟨⟨settle_result h, ⟨hlike.library, ?_, hlike.config, ?_⟩, ?_⟩, ?_, hremarks⟩
  all_goals simp only [settle, hmachine]

/-- Like clauses have the same outcomes in like sessions, whatever the name of the text. -/
theorem perform_same (hlike : session.Like session') {clauses clauses' : List Clause}
    (hclauses : clauses.map Clause.unplaced = clauses'.map Clause.unplaced)
    (h : WellRead clauses) (h' : WellRead clauses') (stack : Stack) (verbosity : Nat) :
    (session.perform name clauses stack verbosity).Same
      (session'.perform name' clauses' stack verbosity) := by
  obtain ⟨inner, inner', nodes, nodes', remarks, hinner, hnodes, hperform, hperform'⟩ :=
    hlike.perform_eq hclauses h h' stack verbosity verbosity
  rw [hperform, hperform']
  exact settle_same hinner (run_follows (eq_follows (hinner.setting _ _) rfl) (hinner.setting _ _)
    depthLimit nodes nodes' hnodes stack _ _ rfl) rfl

end Session

/-! ## Parsing the same words -/

namespace Clause

/-- A section of a text without the place of the name in it. -/
def Section.unplaced : Section → Section
  | .body name => .body name.unplaced
  | division => division

namespace Reader

/-- A reader of words without their places. -/
def unplaced (reader : Reader) : Reader :=
  { division := reader.division.unplaced
    opens := reader.opens
    awaited := reader.awaited
    words := reader.words.map Lexeme.unplaced
    clauses := reader.clauses.map Clause.unplaced }

theorem isComplete_unplaced (reader : Reader) :
    reader.unplaced.isComplete = reader.isComplete := by
  obtain ⟨_ | _ | _, opens, awaited, words, clauses⟩ := reader <;> rfl

theorem endTerm_unplaced (reader : Reader) : reader.unplaced.endTerm = reader.endTerm.unplaced := by
  have hends := isComplete_unplaced reader
  simp only [isComplete] at hends
  simp only [endTerm, hends]
  split
  · simp only [unplaced, List.map_cons, Clause.unplaced, List.map_reverse, List.map_nil]
  · rfl

theorem take_unplaced (reader : Reader) (x : Lexeme) (opens : List Construct) (awaited : Awaited) :
    reader.unplaced.take x.unplaced opens awaited = (reader.take x opens awaited).unplaced := by
  rw [take, take, ← endTerm_unplaced]
  rfl

theorem stepItem?_unplaced (reader : Reader) (x : Lexeme) :
    reader.unplaced.stepItem? x.unplaced = (reader.stepItem? x).map unplaced := by
  have hkind : x.unplaced.kind = x.kind := rfl
  have hopens : reader.unplaced.opens = reader.opens := rfl
  have hterms : reader.unplaced.division = .terms ↔ reader.division = .terms := by
    obtain ⟨_ | _ | _, opens, awaited, words, clauses⟩ := reader <;> simp [unplaced, Section.unplaced]
  simp only [stepItem?, hkind, hopens, take_unplaced]
  split
  case h_12 hx hnone =>
    simp only [hterms]
    split <;> rfl
  case h_13 hx hnone =>
    obtain ⟨_ | _ | name, opens, awaited, words, clauses⟩ := reader
    · rfl
    · rfl
    · simp [unplaced, Section.unplaced, Clause.unplaced]
  all_goals rfl

theorem step?_unplaced (reader : Reader) (x : Lexeme) :
    reader.unplaced.step? x.unplaced = (reader.step? x).map unplaced := by
  have hkind : x.unplaced.kind = x.kind := rfl
  have hawaited : reader.unplaced.awaited = reader.awaited := rfl
  have hopens : reader.unplaced.opens = reader.opens := rfl
  have hopening : reader.unplaced.division = .opening ↔ reader.division = .opening := by
    obtain ⟨_ | _ | _, opens, awaited, words, clauses⟩ := reader <;> simp [unplaced, Section.unplaced]
  simp only [step?, hkind, hawaited, hopens, take_unplaced, hopening]
  split
  · exact stepItem?_unplaced reader x
  · split <;> rfl
  · split
    · split <;> rfl
    · rfl

/-- A reader without places gets as far as the reader, and refuses the same word. -/
theorem run_unplaced (reader : Reader) (xs : List Lexeme) :
    reader.unplaced.run (xs.map Lexeme.unplaced)
      = match reader.run xs with
        | .ok last => .ok last.unplaced
        | .error refused => .error ⟨refused.problem, refused.lexeme.unplaced⟩ := by
  induction xs generalizing reader with
  | nil => rfl
  | cons x rest ih =>
    rw [List.map_cons, run, run, step?_unplaced]
    cases reader.step? x with
    | none => rfl
    | some next => exact ih next

/-- The same words get readers to the same place, or are refused at the same word. -/
theorem start_run_same {xs ys : List Lexeme}
    (h : xs.map Lexeme.unplaced = ys.map Lexeme.unplaced) :
    (∃ last last', start.run xs = .ok last ∧ start.run ys = .ok last'
        ∧ last.unplaced = last'.unplaced)
      ∨ ∃ refused refused', start.run xs = .error refused ∧ start.run ys = .error refused'
        ∧ refused.problem = refused'.problem ∧ refused.lexeme.unplaced = refused'.lexeme.unplaced := by
  have hleft := start.run_unplaced xs
  have hright := start.run_unplaced ys
  rw [← h, hleft] at hright
  cases hxs : start.run xs with
  | error refused =>
    cases hys : start.run ys with
    | error refused' =>
      rw [hxs, hys] at hright
      obtain ⟨hproblem, hlexeme⟩ := Refused.mk.inj (Except.error.inj hright)
      exact .inr ⟨refused, refused', rfl, rfl, hproblem, hlexeme⟩
    | ok last' =>
      rw [hxs, hys] at hright
      cases hright
  | ok last =>
    cases hys : start.run ys with
    | error refused' =>
      rw [hxs, hys] at hright
      cases hright
    | ok last' =>
      rw [hxs, hys] at hright
      exact .inl ⟨last, last', rfl, rfl, Except.ok.inj hright⟩

end Reader

end Clause

section

variable {source source' : String}

/-- Two texts without stray blanks that have the same words have the same clauses, or the same
    fault, but for places. -/
theorem parse_same (hstray : (scan source).stray = none) (hstray' : (scan source').stray = none)
    (hwords : bareWords source = bareWords source') (name name' : Option String) :
    (∃ clauses clauses', parse source name = .ok clauses ∧ parse source' name' = .ok clauses'
        ∧ clauses.map Clause.unplaced = clauses'.map Clause.unplaced)
      ∨ ∃ fault fault', parse source name = .error fault ∧ parse source' name' = .error fault'
        ∧ fault.unplaced = fault'.unplaced := by
  obtain ⟨last, last', hlast, hlast', hreader⟩ | ⟨refused, refused', hrun, hrun', hproblem, hlexeme⟩ :=
    Reader.start_run_same hwords
  · have hcomplete : last.isComplete = last'.isComplete := by
      rw [← Reader.isComplete_unplaced, hreader, Reader.isComplete_unplaced]
    have hclauses : last.clauses.map Clause.unplaced = last'.clauses.map Clause.unplaced :=
      congrArg Reader.clauses hreader
    -- Whether a text is complete and what it says do not depend on places.
    cases hdone : last'.isComplete with
    | true =>
      refine .inl ⟨last.clauses.reverse, last'.clauses.reverse, ?_, ?_, ?_⟩
      · simp only [parse, hlast, hstray, hcomplete, hdone, if_true]
      · simp only [parse, hlast', hstray', hdone, if_true]
      · rw [List.map_reverse, List.map_reverse, hclauses]
    | false =>
      exact .inr ⟨_, _, parse_of_unfinished hstray hlast (hcomplete.trans hdone),
        parse_of_unfinished hstray' hlast' hdone, rfl⟩
  · have htext : refused.lexeme.unplaced.text = refused'.lexeme.unplaced.text := by rw [hlexeme]
    refine .inr ⟨_, _, parse_of_refused hrun, parse_of_refused hrun', ?_⟩
    show SourceError.mk refused.problem refused.lexeme.unplaced.text none none none = _
    rw [hproblem, htext]
    rfl

/-- Two texts without stray blanks that have the same words run to the same outcome. -/
theorem run_same (hstray : (scan source).stray = none) (hstray' : (scan source').stray = none)
    (hwords : bareWords source = bareWords source') (session : Session) (stack : Stack)
    (name name' : Option String) (verbosity : Nat) :
    (session.run source stack name verbosity).Same
      (session.run source' stack name' verbosity) := by
  obtain ⟨clauses, clauses', hparse, hparse', hclauses⟩ | ⟨fault, fault', hparse, hparse', hfault⟩ :=
    parse_same hstray hstray' hwords name name'
  · rw [session.run_eq_perform hparse, session.run_eq_perform hparse']
    exact Session.perform_same (.refl session) hclauses (wellRead_of_parse hparse)
      (wellRead_of_parse hparse') stack verbosity
  · rw [Session.run, Session.run, hparse, hparse']
    have herror : (Error.failure (.ofSource fault)).unplaced
        = (Error.failure (.ofSource fault')).unplaced :=
      congrArg (fun fault => Error.failure ⟨.source fault, some fault.token, none, none⟩) hfault
    exact ⟨⟨.inr ⟨_, _, rfl, rfl, herror⟩, .refl session, rfl⟩, rfl, rfl⟩

end

end StackCalc
