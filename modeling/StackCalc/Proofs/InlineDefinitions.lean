/-
  StackCalc.Proofs.InlineDefinitions

  Binding a text to a name.  A name that is one word and a text that closes its comments, put
  between the brackets of a definition, are read as one definition, whose body has the words of
  the text (`parse_inline`).  A run of it only binds that name (`run_inline`), and the words of
  the text alone decide what program is bound, so binding the text directly comes to the same
  (`define_inline`).
-/

import StackCalc.Proofs.Ending
import StackCalc.Proofs.Rejoining

namespace StackCalc

open Clause Grammar

/-- A name that is read as one word. -/
def IsWord (name : String) : Prop := scan name = ⟨[⟨.word, name, 1, 1⟩], none⟩

instance (name : String) : Decidable (IsWord name) :=
  inferInstanceAs (Decidable (scan name = _))

/-- A definition as it is written within a text. -/
def inlineDefinition (name source : String) : String := "( " ++ name ++ " " ++ source ++ " )"

variable {name source : String} {origin : Option String} {clauses : List Clause}

/-! ## Words -/

theorem inlineDefinition_eq (name source : String) :
    inlineDefinition name source = " ".intercalate ["(", name, source, ")"] := by
  simp only [inlineDefinition, String.intercalate_cons_cons, String.intercalate_singleton,
    String.append_assoc]
  rfl

/-- A name closes its comments, because it has none. -/
theorem IsWord.closed (h : IsWord name) : endsInComment name = false := by
  have hmem : ⟨.word, name, 1, 1⟩ ∈ (scan name).lexemes := by
    rw [h]
    exact List.mem_singleton_self _
  exact (bareWords_text hmem).2.2

/-- The words of a definition are its brackets, its name and the words of its body. -/
theorem inlineDefinition_words (hname : IsWord name) (hstray : (scan source).stray = none)
    (hclosed : endsInComment source = false) :
    (scan (inlineDefinition name source)).stray = none
      ∧ bareWords (inlineDefinition name source)
        = ⟨.definitionStart, "(", 0, 0⟩ :: ⟨.word, name, 0, 0⟩ :: bareWords source
          ++ [⟨.definitionEnd, ")", 0, 0⟩] := by
  have hopening : scan "(" = ⟨[⟨.definitionStart, "(", 1, 1⟩], none⟩ := by decide +kernel
  have hclosing : scan ")" = ⟨[⟨.definitionEnd, ")", 1, 1⟩], none⟩ := by decide +kernel
  have hstrays : ∀ text ∈ ["(", name, source, ")"], (scan text).stray = none := by
    simp only [List.forall_mem_cons]
    exact ⟨by rw [hopening], by rw [hname], hstray, by rw [hclosing], List.forall_mem_nil _⟩
  have hcloses : ∀ text ∈ ["(", name, source, ")"].dropLast, endsInComment text = false := by
    simp only [List.dropLast, List.forall_mem_cons]
    exact ⟨by decide +kernel, hname.closed, hclosed, List.forall_mem_nil _⟩
  obtain ⟨hjoined, hwords⟩ := intercalate_words hstrays hcloses
  have hopens : bareWords "(" = [⟨.definitionStart, "(", 0, 0⟩] := by rw [bareWords, hopening]; rfl
  have hends : bareWords ")" = [⟨.definitionEnd, ")", 0, 0⟩] := by rw [bareWords, hclosing]; rfl
  have hnames : bareWords name = [⟨.word, name, 0, 0⟩] := by rw [bareWords, hname]; rfl
  rw [inlineDefinition_eq]
  refine ⟨hjoined, hwords.trans ?_⟩
  rw [List.flatMap_cons, List.flatMap_cons, List.flatMap_cons, List.flatMap_cons, List.flatMap_nil,
    hopens, hnames, hends, List.append_nil]
  rfl

/-! ## Clauses -/

/-- A text without definitions consists of the words of its terms. -/
theorem Clause.Reads.words_of_terms {xs : List Lexeme} (h : Reads clauses xs)
    (hterms : definitionsOf clauses = []) : termWords clauses = xs := by
  induction h with
  | nil => rfl
  | definition _ _ _ _ _ _ => cases hterms
  | @term clauses item rest _ _ ih =>
    rw [termWords_term, ih hterms]

/-- A text between the brackets of a definition is read as its body, with the words that it has
    by itself. -/
theorem parse_inline (hname : IsWord name) (h : parse source origin = .ok clauses)
    (hterms : definitionsOf clauses = []) (hclosed : endsInComment source = false)
    (origin' : Option String) :
    ∃ head body, parse (inlineDefinition name source) origin' = .ok [.definition head body]
      ∧ head.text = name
      ∧ body.map Lexeme.unplaced = (termWords clauses).map Lexeme.unplaced := by
  have hstray := stray_eq_none_of_parse h
  have hreads := (parse_ok_iff hstray).mp h
  have hsource : bareWords source = (termWords clauses).map Lexeme.unplaced := by
    rw [hreads.words_of_terms hterms, bareWords]
  obtain ⟨hjoined, hwords⟩ := inlineDefinition_words hname hstray hclosed
  -- The words of the definition, one by one, stand behind those without places.
  rw [bareWords] at hwords
  obtain ⟨front, back, hlexemes, hfront, hback⟩ := List.map_eq_append_iff.mp hwords
  obtain ⟨opening, rest, rfl, hopening, hrest⟩ := List.map_eq_cons_iff.mp hfront
  obtain ⟨head, body, rfl, hhead, hbody⟩ := List.map_eq_cons_iff.mp hrest
  obtain ⟨closing, rfl, hclosing⟩ := List.map_eq_singleton_iff.mp hback
  rw [hsource] at hbody
  have hitems : IsItems Lexeme.kind body := by
    have hkinds : body.map Lexeme.kind = (termWords clauses).map Lexeme.kind := by
      have hkinds := congrArg (List.map Lexeme.kind) hbody
      rwa [List.map_map, List.map_map] at hkinds
    exact (wellRead_of_parse h).terms.1.map.of_map body hkinds
  have hdefinition : Reads [.definition head body] (opening :: head :: body ++ [closing]) :=
    .definition (congrArg Lexeme.kind hopening) (congrArg Lexeme.kind hhead) hitems
      (congrArg Lexeme.kind hclosing) .nil
  refine ⟨head, body, ?_, congrArg Lexeme.text hhead, hbody⟩
  rw [parse_ok_iff hjoined, hlexemes]
  exact hdefinition

namespace Session

/-! ## Runs of a definition -/

/-- A text that is one definition binds its name and does nothing else. -/
theorem run_of_definition (session : Session) {head : Lexeme} {body : List Lexeme}
    {program : Program} (h : parse source origin = .ok [.definition head body])
    (hprogram : assemble (tokens origin body) ⟨origin, head.line, head.line⟩ = .ok program)
    (stack : Stack) (verbosity : Nat) :
    (session.run source stack origin verbosity).result = .ok stack
      ∧ (session.run source stack origin verbosity).session
        = (session.bind head.text program).1
      ∧ (session.run source stack origin verbosity).remarks
        = (session.bind head.text program).2 := by
  have hbind := @bindAll_cons origin [] session head body program hprogram ""
  have hnothing : assemble (tokens origin []) (.empty origin) = .ok ⟨[], .empty origin⟩ :=
    assemble_of_assembles .nil _
  have hrun : session.run source stack origin verbosity
      = (session.bind head.text program).1.settle ("" ++ (session.bind head.text program).2)
          (.ok stack, finished ⟨.fresh, session.config, verbosity⟩ 0 stack session.machine) := by
    have hperform : session.run source stack origin verbosity
        = session.perform origin [.definition head body] stack verbosity :=
      session.run_eq_perform h stack verbosity
    have hwords : termWords [.definition head body] = [] := rfl
    have hdefinitions : definitionsOf [.definition head body] = [(head, body)] := rfl
    rw [hperform, perform, hdefinitions, hbind, hwords]
    simp only [bindAll, hnothing]
    rw [run_nil]
    rfl
  have hquiet := Machine.alike_finished ⟨.fresh, session.config, verbosity⟩ 0 stack session.machine
  rw [hrun]
  refine ⟨rfl, ?_, String.empty_append⟩
  simp only [settle, hquiet.memory, hquiet.seed]
  rfl

/-- A text that parses and defines nothing is bound to a name, with the remark that is due. -/
theorem define_of_terms (session : Session)
    (h : parse source (some (definitionName name)) = .ok clauses)
    (hterms : definitionsOf clauses = []) :
    ∃ program, assemble (tokens (some (definitionName name)) (termWords clauses))
        ⟨some (definitionName name), 1, 1⟩ = .ok program
      ∧ session.define name source
        = ⟨.ok (), (session.bind name program).1, "", (session.bind name program).2, none⟩ := by
  obtain ⟨nodes, hnodes⟩ := (wellRead_of_parse h).assembles (some (definitionName name))
  have hprogram := assemble_of_assembles hnodes ⟨some (definitionName name), 1, 1⟩
  refine ⟨_, hprogram, ?_⟩
  simp only [define, h, hterms, hprogram]
  rfl

/-- What binding a text to a name comes to: the program of its terms is bound, with the remark
    that is due, if the text parses and defines nothing itself.  If not, the text is refused and
    nothing changes. -/
theorem define_cases (session : Session) (name source : String) :
    (∃ clauses program, parse source (some (definitionName name)) = .ok clauses
        ∧ definitionsOf clauses = []
        ∧ assemble (tokens (some (definitionName name)) (termWords clauses))
            ⟨some (definitionName name), 1, 1⟩ = .ok program
        ∧ session.define name source
          = ⟨.ok (), (session.bind name program).1, "", (session.bind name program).2, none⟩)
      ∨ ∃ failure,
        session.define name source = session.unchanged (.error (.failure failure))
          ∧ (failure.cause.category = .parse ∨ failure.cause.category = .incomplete) := by
  have hsource : ∀ fault : SourceError, (Cause.source fault).category = .parse
      ∨ (Cause.source fault).category = .incomplete := by
    intro fault
    rw [Cause.category]
    split
    · exact .inr rfl
    · exact .inl rfl
  cases hparse : parse source (some (definitionName name)) with
  | error fault =>
    refine .inr ⟨.ofSource fault, ?_, hsource fault⟩
    simp only [define, hparse]
  | ok clauses =>
    cases hdefinitions : definitionsOf clauses with
    | cons inner rest =>
      refine .inr ⟨.ofSource (nestedFault name inner.1.text), ?_, hsource _⟩
      simp only [define, hparse, hdefinitions]
    | nil =>
      obtain ⟨program, hprogram, hdefine⟩ := session.define_of_terms hparse hdefinitions
      exact .inl ⟨clauses, program, rfl, hdefinitions, hprogram, hdefine⟩

/-- A text without definitions that closes its comments is bound to a word directly as it is by
    a run of the definition: both succeed, and the bound programs only differ in places. -/
theorem define_of_parse (session : Session) (hname : IsWord name)
    (h : parse source origin = .ok clauses) (hterms : definitionsOf clauses = [])
    (hclosed : endsInComment source = false) (stack : Stack) (origin' : Option String)
    (verbosity : Nat) :
    ∃ program program', program.unplaced = program'.unplaced
      ∧ session.define name source
        = ⟨.ok (), (session.bind name program).1, "", (session.bind name program).2, none⟩
      ∧ (session.run (inlineDefinition name source) stack origin' verbosity).result = .ok stack
      ∧ (session.run (inlineDefinition name source) stack origin' verbosity).session
        = (session.bind name program').1
      ∧ (session.run (inlineDefinition name source) stack origin' verbosity).remarks
        = (session.bind name program').2 := by
  have hstray := stray_eq_none_of_parse h
  have hparse : parse source (some (definitionName name)) = .ok clauses :=
    (parse_ok_iff hstray).mpr ((parse_ok_iff hstray).mp h)
  obtain ⟨head, body, hinline, rfl, hbody⟩ := parse_inline hname h hterms hclosed origin'
  have hbodyItems : Reassembles body := (items_of_parse hinline (List.mem_singleton_self _)).elim
    reassembles_of_items
  obtain ⟨program', hprogram', -⟩ := hbodyItems origin' ⟨origin', head.line, head.line⟩
  obtain ⟨hresult, hsession, hremarks⟩ := session.run_of_definition hinline hprogram' stack verbosity
  obtain ⟨program, hprogram, hdefine⟩ := session.define_of_terms hparse hterms
  exact ⟨program, program', assemble_unplaced hbody.symm hprogram hprogram', hdefine, hresult,
    hsession, hremarks⟩

end Session

/-- Binding a text to a name is the same as running its definition.  For a name that is one word
    and a text that parses, defines nothing and closes its comments, both succeed, the run leaves
    its stack alone, both bind the name to the same program but for places and change nothing
    else, and both make the same remarks.  In general a text is bound if it parses and defines
    nothing; if not, it is refused as a text, and nothing changes. -/
theorem define_inline (session : Session) (name source : String) :
    (∀ origin clauses, IsWord name → parse source origin = .ok clauses →
      definitionsOf clauses = [] → endsInComment source = false →
        ∀ stack origin' verbosity,
          let defined := session.define name source
          let ran := session.run ("( " ++ name ++ " " ++ source ++ " )") stack origin' verbosity
          defined.result = .ok () ∧ ran.result = .ok stack
            ∧ (∃ program program', program.unplaced = program'.unplaced
              ∧ defined.session = { session with library := session.library.define name program }
              ∧ ran.session = { session with library := session.library.define name program' })
            ∧ defined.session.library.unplaced = ran.session.library.unplaced
            ∧ defined.session.memory = ran.session.memory
            ∧ defined.remarks = ran.remarks)
    ∧ ((∃ clauses program, parse source (some (Session.definitionName name)) = .ok clauses
          ∧ definitionsOf clauses = []
          ∧ assemble (Session.tokens (some (Session.definitionName name)) (termWords clauses))
              ⟨some (Session.definitionName name), 1, 1⟩ = .ok program
          ∧ (session.define name source).result = .ok ()
          ∧ (session.define name source).session
            = { session with library := session.library.define name program })
        ∨ ∃ failure,
          session.define name source = session.unchanged (.error (.failure failure))
            ∧ (failure.cause.category = .parse ∨ failure.cause.category = .incomplete)) := by
  constructor
  · intro origin clauses hname hparse hterms hclosed stack origin' verbosity
    obtain ⟨program, program', hprogram, hdefine, hresult, hsession, hremarks⟩ :=
      session.define_of_parse hname hparse hterms hclosed stack origin' verbosity
    obtain ⟨hlike, hremark⟩ := (Session.Like.refl session).bind hprogram name
    rw [inlineDefinition] at hresult hsession hremarks
    simp only [hdefine, hresult, hsession, hremarks]
    exact ⟨trivial, trivial, ⟨program, program', hprogram, rfl, rfl⟩, hlike.library, hlike.memory,
      hremark⟩
  · obtain ⟨clauses, program, hparse, hterms, hprogram, hdefine⟩ | hrefused :=
      session.define_cases name source
    · rw [hdefine]
      exact .inl ⟨clauses, program, hparse, hterms, hprogram, rfl, rfl⟩
    · exact .inr hrefused

/-- A body with a conditional, a block and a comment that is closed at its end. -/
theorem define_inline_block :
    let session := Session.fresh .default
    let defined := session.define "halves" "[ 2 / ] map < each >"
    let ran := session.run ("( " ++ "halves" ++ " " ++ "[ 2 / ] map < each >" ++ " )") [] none 0
    defined.result = .ok () ∧ ran.result = .ok []
      ∧ defined.session.library.unplaced = ran.session.library.unplaced := by
  have hwords : scan "[ 2 / ] map < each >"
      = ⟨[⟨.blockOpen, "[", 1, 1⟩, ⟨.number, "2", 1, 3⟩, ⟨.word, "/", 1, 5⟩,
          ⟨.blockClose, "]", 1, 7⟩, ⟨.combinator, "map", 1, 9⟩], none⟩ := by
    decide +kernel
  have hparse : parse "[ 2 / ] map < each >" none
      = .ok [.term [⟨.blockOpen, "[", 1, 1⟩, ⟨.number, "2", 1, 3⟩, ⟨.word, "/", 1, 5⟩,
          ⟨.blockClose, "]", 1, 7⟩, ⟨.combinator, "map", 1, 9⟩]] := by
    simp only [parse, hwords]
    rfl
  obtain ⟨hdefined, hran, -, hlibrary, -⟩ :=
    (define_inline (.fresh .default) "halves" "[ 2 / ] map < each >").1 none _ (by decide +kernel)
      hparse rfl (by decide +kernel) [] none 0
  exact ⟨hdefined, hran, hlibrary⟩

end StackCalc
