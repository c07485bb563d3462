/-
  StackCalc.Proofs.DefinitionOrder

  The order of definitions.  All definitions of a text are in force before the first of its terms
  is run, and behind them a name stands for the last body that the text gives for it
  (`Overwrites.agrees`).  A run looks names up and does not see in which order they were bound
  (`run_follows`).  So two texts with the same terms and the same last bodies run alike, in
  sessions that agree (`run_agrees`) and all the more in one and the same session.
-/

import StackCalc.Proofs.SameWords

namespace StackCalc

open Clause

/-- The words of the last body that is given for a name, without their places. -/
def lastBody (definitions : List (Lexeme × List Lexeme)) (word : String) : Option (List Lexeme) :=
  (definitions.reverse.find? fun definition => definition.1.text = word).map
    fun definition => definition.2.map Lexeme.unplaced

/-! ## Tables -/

/-- Like tables that are overwritten with the same last bodies are like each other again. -/
theorem Overwrites.agrees {origin origin' : Option String}
    {definitions definitions' : List (Lexeme × List Lexeme)}
    {before before' after after' : Table Program}
    (h : Overwrites origin definitions before after)
    (h' : Overwrites origin' definitions' before' after')
    (hbodies : ∀ word, lastBody definitions word = lastBody definitions' word)
    (hbefore : ∀ word,
      (before.get? word).map Program.unplaced = (before'.get? word).map Program.unplaced)
    (word : String) :
    (after.get? word).map Program.unplaced = (after'.get? word).map Program.unplaced := by
  have hword := h word
  have hword' := h' word
  have hbody := hbodies word
  rw [lastBody, lastBody] at hbody
  cases hlast : definitions.reverse.find? fun definition => definition.1.text = word with
  | none =>
    -- The name is defined in neither of the texts.
    rw [hlast, Option.map_none, eq_comm, Option.map_eq_none_iff] at hbody
    rw [hlast] at hword
    rw [hbody] at hword'
    rw [hword, hword', hbefore word]
  | some last =>
    rw [hlast, Option.map_some, eq_comm, Option.map_eq_some_iff] at hbody
    obtain ⟨last', hlast', hsame⟩ := hbody
    rw [hlast] at hword
    rw [hlast'] at hword'
    obtain ⟨program, hprogram, hafter⟩ := hword
    obtain ⟨program', hprogram', hafter'⟩ := hword'
    have hunplaced : program.unplaced = program'.unplaced :=
      assemble_unplaced hsame.symm hprogram hprogram'
    rw [hafter, hafter', Option.map_some, Option.map_some, hunplaced]

/-! ## Sessions -/

/-- Two sessions in which every name stands for the same, apart from places, and that are the same
    in all other respects. -/
structure Session.Agrees (session session' : Session) : Prop where
  library : session.library.Agrees session'.library
  memory : session.memory = session'.memory
  config : session.config = session'.config
  seed : session.seed = session'.seed

/-- Two outcomes that only places and the order of definitions tell apart: the result is the same
    but for the place of an error, the sessions agree, and the same was printed and counted. -/
structure Outcome.Agrees {α : Type} (x y : Outcome α) : Prop where
  result : (∃ result, x.result = .ok result ∧ y.result = .ok result)
    ∨ ∃ error error', x.result = .error error ∧ y.result = .error error'
        ∧ error.unplaced = error'.unplaced
  session : x.session.Agrees y.session
  printed : x.printed = y.printed
  steps : x.steps = y.steps

namespace Session

variable {session session' : Session}

theorem Agrees.refl (session : Session) : Agrees session session :=
  ⟨.of_unplaced rfl, rfl, rfl, rfl⟩

theorem Agrees.setting (h : session.Agrees session') (verbosity : Nat) :
    (session.setting verbosity).Like (session'.setting verbosity) :=
  ⟨h.config, h.library⟩

/-- Sessions that agree still agree behind definitions with the same last bodies. -/
theorem Agrees.withDefinitions (h : session.Agrees session') {name name' : Option String}
    {definitions definitions' : List (Lexeme × List Lexeme)} {table table' : Table Program}
    (htable : Overwrites name definitions session.library.definitions table)
    (htable' : Overwrites name' definitions' session'.library.definitions table')
    (hbodies : ∀ word, lastBody definitions word = lastBody definitions' word) :
    (session.withDefinitions table).Agrees (session'.withDefinitions table') where
  library := ⟨h.library.functions, htable.agrees htable' hbodies h.library.definitions⟩
  memory := h.memory
  config := h.config
  seed := h.seed

/-- What sessions that agree come to with replies that are like each other. -/
theorem settle_agrees {α : Type} (h : session.Agrees session') {x y : Reply α}
    (hreply : Reply.Like (· = ·) x y) (remarks remarks' : String) :
    (session.settle remarks x).Agrees (session'.settle remarks' y) := by
  have hmachine : x.2 = y.2 := hreply.machines
  refine ⟨settle_result hreply, ⟨h.library, ?_, h.config, ?_⟩, ?_, ?_⟩
  all_goals simp only [settle, hmachine]

/-- Texts with the same terms and the same last bodies run alike in sessions that agree. -/
theorem run_agrees (h : session.Agrees session') {source source' : String}
    {name name' : Option String} {clauses clauses' : List Clause}
    (hparse : parse source name = .ok clauses) (hparse' : parse source' name' = .ok clauses')
    (hterms : (termWords clauses).map Lexeme.unplaced = (termWords clauses').map Lexeme.unplaced)
    (hbodies : ∀ word, lastBody (definitionsOf clauses) word = lastBody (definitionsOf clauses') word)
    (stack : Stack) (verbosity : Nat) :
    (session.run source stack name verbosity).Agrees
      (session'.run source' stack name' verbosity) := by
  obtain ⟨-, table, program, remarks, htable, hprogram, hrun⟩ :=
    session.run_of_parse hparse stack verbosity
  obtain ⟨-, table', program', remarks', htable', hprogram', hrun'⟩ :=
    session'.run_of_parse hparse' stack verbosity
  have hbound := h.withDefinitions htable htable' hbodies
  have hnodes : Node.unplacedAll program.nodes = Node.unplacedAll program'.nodes :=
    congrArg Program.nodes (assemble_unplaced hterms hprogram hprogram')
  have hmachine : session.machine = session'.machine := by
    rw [Session.machine, Session.machine, h.memory, h.seed]
  have hsetting := hbound.setting verbosity
  have hreply := run_follows (eq_follows hsetting rfl) hsetting depthLimit program.nodes
    program'.nodes hnodes stack session.machine session'.machine hmachine
  rw [hrun, hrun']
  exact settle_agrees hbound hreply remarks remarks'

end Session

/-- The order of definitions does not matter.  Two texts whose terms are the same words and that
    give, for every name, the same last body or none, come to the same in a session, wherever
    their definitions stand and whatever they gave for a name before: the same stack, memory,
    functions and definitions, with the same output, or the same error, but for its place. -/
theorem definition_order_irrelevant (session : Session) (first second : String)
    (name name' : Option String) (stack : Stack) (verbosity : Nat)
    {clauses clauses' : List Clause} (hfirst : parse first name = .ok clauses)
    (hsecond : parse second name' = .ok clauses')
    (hterms : (termWords clauses).map Lexeme.unplaced = (termWords clauses').map Lexeme.unplaced)
    (hbodies : ∀ word,
      lastBody (definitionsOf clauses) word = lastBody (definitionsOf clauses') word) :
    (session.run first stack name verbosity).Agrees
      (session.run second stack name' verbosity) :=
  Session.run_agrees (.refl session) hfirst hsecond hterms hbodies stack verbosity

/-- A definition that is used before it stands and replaces another one, behind or in front of the
    terms. -/
theorem definition_order_irrelevant_forward :
    ((Session.fresh .default).run "( f 1 ) 2 ( g 3 f ) g ( f dup )" [] none 0).Agrees
      ((Session.fresh .default).run "( f dup ) ( g 3 f ) 2 g" [] (some "swapped") 0) := by
  have hwords : scan "( f 1 ) 2 ( g 3 f ) g ( f dup )"
      = ⟨[⟨.definitionStart, "(", 1, 1⟩, ⟨.word, "f", 1, 3⟩, ⟨.number, "1", 1, 5⟩,
          ⟨.definitionEnd, ")", 1, 7⟩, ⟨.number, "2", 1, 9⟩, ⟨.definitionStart, "(", 1, 11⟩,
          ⟨.word, "g", 1, 13⟩, ⟨.number, "3", 1, 15⟩, ⟨.word, "f", 1, 17⟩,
          ⟨.definitionEnd, ")", 1, 19⟩, ⟨.word, "g", 1, 21⟩, ⟨.definitionStart, "(", 1, 23⟩,
          ⟨.word, "f", 1, 25⟩, ⟨.word, "dup", 1, 27⟩, ⟨.definitionEnd, ")", 1, 31⟩], none⟩ := by
    decide +kernel
  have hwords' : scan "( f dup ) ( g 3 f ) 2 g"
      = ⟨[⟨.definitionStart, "(", 1, 1⟩, ⟨.word, "f", 1, 3⟩, ⟨.word, "dup", 1, 5⟩,
          ⟨.definitionEnd, ")", 1, 9⟩, ⟨.definitionStart, "(", 1, 11⟩, ⟨.word, "g", 1, 13⟩,
          ⟨.number, "3", 1, 15⟩, ⟨.word, "f", 1, 17⟩, ⟨.definitionEnd, ")", 1, 19⟩,
          ⟨.number, "2", 1, 21⟩, ⟨.word, "g", 1, 23⟩], none⟩ := by
    decide +kernel
  have hfirst : parse "( f 1 ) 2 ( g 3 f ) g ( f dup )" none
      = .ok [.definition ⟨.word, "f", 1, 3⟩ [⟨.number, "1", 1, 5⟩],
          .term [⟨.number, "2", 1, 9⟩],
          .definition ⟨.word, "g", 1, 13⟩ [⟨.number, "3", 1, 15⟩, ⟨.word, "f", 1, 17⟩],
          .term [⟨.word, "g", 1, 21⟩],
          .definition ⟨.word, "f", 1, 25⟩ [⟨.word, "dup", 1, 27⟩]] := by
    simp only [parse, hwords]
    rfl
  have hsecond : parse "( f dup ) ( g 3 f ) 2 g" (some "swapped")
      = .ok [.definition ⟨.word, "f", 1, 3⟩ [⟨.word, "dup", 1, 5⟩],
          .definition ⟨.word, "g", 1, 13⟩ [⟨.number, "3", 1, 15⟩, ⟨.word, "f", 1, 17⟩],
          .term [⟨.number, "2", 1, 21⟩], .term [⟨.word, "g", 1, 23⟩]] := by
    simp only [parse, hwords']
    rfl
  refine definition_order_irrelevant (.fresh .default) _ _ none (some "swapped") [] 0 hfirst hsecond
    rfl fun word => ?_
  by_cases hf : "f" = word
  · subst hf
    rfl
  · by_cases hg : "g" = word
    · subst hg
      rfl
    · simp [lastBody, definitionsOf, hf, hg]

end StackCalc
