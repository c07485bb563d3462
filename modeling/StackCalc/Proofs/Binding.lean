/-
  StackCalc.Proofs.Binding

  What a run does to the definitions of a session.  A text that does not parse changes
  nothing at all.  A text that parses has no other way to fail before it is evaluated:
  all its definitions can be assembled, so all of them are bound (`bindAll_ok`), and its
  program is evaluated under the definitions that are then in force (`run_of_parse`).
-/

import StackCalc.Proofs.Reconstruction
import StackCalc.Session

namespace StackCalc

/-! ## Definitions -/

/-- A table overwritten with the definitions of a text: a name that the text defines is
    bound to the program of the last body given for it, all other names are as before. -/
def Overwrites (origin : Option String) (definitions : List (Lexeme × List Lexeme))
    (before after : Table Program) : Prop :=
  ∀ word, match definitions.reverse.find? fun definition => definition.1.text = word with
    | some (head, body) =>
      ∃ program, assemble (Session.tokens origin body) ⟨origin, head.line, head.line⟩ = .ok program
        ∧ after.get? word = some program
    | none => after.get? word = before.get? word

variable {origin : Option String} {definitions : List (Lexeme × List Lexeme)}
  {before after : Table Program}

theorem Overwrites.nil (table : Table Program) : Overwrites origin [] table table :=
  fun _ => rfl

/-- One more definition in front is overwritten by all that follow. -/
theorem Overwrites.cons {head : Lexeme} {body : List Lexeme} {program : Program}
    (hprogram :
      assemble (Session.tokens origin body) ⟨origin, head.line, head.line⟩ = .ok program)
    (h : Overwrites origin definitions (before.set head.text program) after) :
    Overwrites origin ((head, body) :: definitions) before after := by
  intro word
  have hword := h word
  rw [List.reverse_cons, List.find?_append]
  cases hlast : definitions.reverse.find? fun definition => definition.1.text = word with
  | some last =>
    rw [hlast] at hword
    exact hword
  | none =>
    rw [hlast] at hword
    simp only [Table.get?_set] at hword
    by_cases hhead : head.text = word
    · simp only [hhead, if_true] at hword
      simp only [Option.none_or, List.find?_singleton, hhead, decide_true, if_true]
      exact ⟨program, hprogram, hword⟩
    · rw [if_neg (Ne.symm hhead)] at hword
      simp only [Option.none_or, List.find?_singleton, hhead, decide_false]
      exact hword

namespace Session

/-- A session with other definitions. -/
def withDefinitions (session : Session) (table : Table Program) : Session :=
  { session with library := { session.library with definitions := table } }

/-- Definitions whose bodies can be assembled are all bound. -/
theorem bindAll_ok (session : Session) (remarks : String)
    (h : ∀ head body, (head, body) ∈ definitions → Reassembles body) :
    ∃ table remarks',
      session.bindAll origin remarks definitions = (.ok (), session.withDefinitions table, remarks')
        ∧ Overwrites origin definitions session.library.definitions table := by
  induction definitions generalizing session remarks with
  | nil => exact ⟨session.library.definitions, remarks, rfl, .nil _⟩
  | cons definition rest ih =>
    obtain ⟨head, body⟩ := definition
    obtain ⟨program, hprogram, -⟩ :=
      h head body (List.mem_cons_self ..) origin ⟨origin, head.line, head.line⟩
    obtain ⟨table, remarks', hrest, hoverwrites⟩ :=
      ih (session.bind head.text program).1 (remarks ++ (session.bind head.text program).2)
        fun head body hmem => h head body (List.mem_cons_of_mem _ hmem)
    refine ⟨table, remarks', ?_, .cons hprogram hoverwrites⟩
    simp only [bindAll, tokens, hprogram]
    exact hrest

/-! ## Runs -/

variable {source : String} {name : Option String} {clauses : List Clause}

/-- The bodies of the definitions of a text are items, of its own words. -/
theorem items_of_parse (h : parse source name = .ok clauses) {head : Lexeme} {body : List Lexeme}
    (hmem : (head, body) ∈ definitionsOf clauses) :
    Grammar.IsItems Lexeme.kind body ∧ ∀ x ∈ body, x.Genuine := by
  have hreads := (parse_ok_iff (stray_eq_none_of_parse h)).mp h
  obtain ⟨hitems, hsub⟩ := hreads.definition_items hmem
  exact ⟨hitems, fun x hx => genuine_of_mem_scan (hsub hx)⟩

/-- The terms of a text are items, of its own words. -/
theorem terms_of_parse (h : parse source name = .ok clauses) :
    Grammar.IsItems Lexeme.kind (termWords clauses) ∧ ∀ x ∈ termWords clauses, x.Genuine := by
  have hreads := (parse_ok_iff (stray_eq_none_of_parse h)).mp h
  obtain ⟨hitems, hsub⟩ := hreads.term_items
  exact ⟨hitems, fun x hx => genuine_of_mem_scan (hsub hx)⟩

/-- A text that does not parse leaves the session alone. -/
theorem run_of_parse_error (session : Session) {fault : SourceError}
    (h : parse source name = .error fault) (stack : Stack) (verbosity : Nat) :
    session.run source stack name verbosity
      = session.unchanged (.error (.failure (.ofSource fault))) := by
  simp only [run, h]

/-- A text that parses is evaluated under its own definitions and those that it leaves. -/
theorem run_of_parse (session : Session) (h : parse source name = .ok clauses) (stack : Stack)
    (verbosity : Nat) :
    (∀ head body, (head, body) ∈ definitionsOf clauses → ∃ program,
        assemble (tokens name body) ⟨name, head.line, head.line⟩ = .ok program) ∧
    ∃ table program remarks,
      Overwrites name (definitionsOf clauses) session.library.definitions table
        ∧ assemble (tokens name (termWords clauses)) (.empty name) = .ok program
        ∧ session.run source stack name verbosity
          = (session.withDefinitions table).settle remarks
              (StackCalc.run ((session.withDefinitions table).setting verbosity) depthLimit
                program.nodes stack session.machine) := by
  have hbodies : ∀ head body, (head, body) ∈ definitionsOf clauses → Reassembles body :=
    fun head body hmem => (items_of_parse h hmem).elim reassembles_of_items
  refine ⟨fun head body hmem => ?_, ?_⟩
  · obtain ⟨program, hprogram, -⟩ := hbodies head body hmem name ⟨name, head.line, head.line⟩
    exact ⟨program, hprogram⟩
  · obtain ⟨table, remarks, hbind, hoverwrites⟩ := @bindAll_ok name _ session "" hbodies
    obtain ⟨program, hprogram, -⟩ :=
      (terms_of_parse h).elim reassembles_of_items name (.empty name)
    refine ⟨table, program, remarks, hoverwrites, hprogram, ?_⟩
    simp only [run, h, hbind, tokens, hprogram]
    rfl

end Session

/-- A run is all or nothing.  A text that does not parse changes nothing and evaluates
    nothing.  Of a text that parses everything can be assembled, its definitions are all in
    force before the first step, and the evaluation leaves them as they are, whether it
    finishes or fails. -/
theorem run_all_or_nothing (session : Session) (source : String) (stack : Stack)
    (name : Option String) (verbosity : Nat) :
    match parse source name with
    | .error fault =>
      session.run source stack name verbosity
        = session.unchanged (.error (.failure (.ofSource fault)))
    | .ok clauses =>
      (∀ head body, (head, body) ∈ definitionsOf clauses → ∃ program,
          assemble (Session.tokens name body) ⟨name, head.line, head.line⟩ = .ok program) ∧
      ∃ table program remarks,
        Overwrites name (definitionsOf clauses) session.library.definitions table
          ∧ assemble (Session.tokens name (termWords clauses)) (.empty name) = .ok program
          ∧ session.run source stack name verbosity
            = (session.withDefinitions table).settle remarks
                (run ((session.withDefinitions table).setting verbosity) depthLimit
                  program.nodes stack session.machine)
          ∧ (session.run source stack name verbosity).session.library
            = { session.library with definitions := table } := by
  cases h : parse source name with
  | error fault => exact session.run_of_parse_error h stack verbosity
  | ok clauses =>
    obtain ⟨hbodies, table, program, remarks, hoverwrites, hprogram, hrun⟩ :=
      session.run_of_parse h stack verbosity
    refine ⟨hbodies, table, program, remarks, hoverwrites, hprogram, hrun, ?_⟩
    rw [hrun]
    rfl

end StackCalc
