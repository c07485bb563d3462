/-
  StackCalc.Proofs.Recognition

  The reader decides the grammar.  A text is accepted exactly if its words derive from
  the grammar (`accepted_iff`), and words are read on exactly as long as they are the
  start of a text (`viable_iff`): every reader that is reached can still be led to the
  end by closing what is open, and a refused word leaves nothing that could follow.
  Together these settle the three outcomes of `parse` on a text without stray blanks
  (`parse_decides_grammar`).
-/

import StackCalc.Proofs.Reading

namespace StackCalc
namespace Clause

open Grammar

variable {division : Section} {opens : List Construct} {awaited : Awaited}
  {words xs rest : List Lexeme} {clauses : List Clause} {x : Lexeme} {reader next : Reader}

/-! ## What an accepted text is -/

/-- The words that are right from a place where an item may start to the end of a text,
    in a part of the text and inside some constructs, innermost first. -/
inductive Completes : Section → List Construct → List Lexeme → Prop
  | text {xs : List Lexeme} (htext : IsText Lexeme.kind xs) : Completes .terms [] xs
  | body {name closing : Lexeme} {body rest : List Lexeme} (hbody : IsItems Lexeme.kind body)
      (hclosing : closing.kind = .definitionEnd) (hrest : IsText Lexeme.kind rest) :
      Completes (.body name) [] (body ++ closing :: rest)
  | block {division : Section} {opens : List Construct} {closing combinator : Lexeme}
      {body rest : List Lexeme}
      (hbody : IsItems Lexeme.kind body) (hclosing : closing.kind = .blockClose)
      (hcombinator : combinator.kind = .combinator) (hrest : Completes division opens rest) :
      Completes division (.block :: opens) (body ++ closing :: combinator :: rest)
  | branch {division : Section} {construct : Construct} {opens : List Construct}
      {ending : Lexeme} {body rest : List Lexeme}
      (hconstruct : construct ≠ .block) (hbody : IsItems Lexeme.kind body)
      (hending : ending.kind = .testEnd) (hrest : Completes division opens rest) :
      Completes division (construct :: opens) (body ++ ending :: rest)
  | branches {division : Section} {opens : List Construct} {middle ending : Lexeme}
      {body alternative rest : List Lexeme}
      (hbody : IsItems Lexeme.kind body) (hmiddle : middle.kind = .alternative)
      (halternative : IsItems Lexeme.kind alternative) (hending : ending.kind = .testEnd)
      (hrest : Completes division opens rest) :
      Completes division (.consequent :: opens)
        (body ++ middle :: alternative ++ ending :: rest)

/-- Where an item may start, one more item may be put in front. -/
theorem Completes.item (hitem : IsItem Lexeme.kind xs) (h : Completes division opens rest) :
    Completes division opens (xs ++ rest) := by
  cases h with
  | text htext => exact .text (.item hitem htext)
  | body hbody hclosing hrest =>
    rw [← List.append_assoc]
    exact .body (.cons hitem hbody) hclosing hrest
  | block hbody hclosing hcombinator hrest =>
    rw [← List.append_assoc]
    exact .block (.cons hitem hbody) hclosing hcombinator hrest
  | branch hconstruct hbody hending hrest =>
    rw [← List.append_assoc]
    exact .branch hconstruct (.cons hitem hbody) hending hrest
  | branches hbody hmiddle halternative hending hrest =>
    rw [← List.append_assoc, ← List.append_assoc]
    exact .branches (.cons hitem hbody) hmiddle halternative hending hrest

/-- The words that are right from a reader to the end of a text. -/
def Reader.Demands (reader : Reader) (xs : List Lexeme) : Prop :=
  match reader.awaited, xs with
  | .item, xs => Completes reader.division reader.opens xs
  | .combinator, x :: rest =>
    x.kind = .combinator ∧ Completes reader.division reader.opens rest
  | .name, x :: rest =>
    x.kind = .word ∧
      Completes (if reader.division = .opening then .body x else reader.division)
        reader.opens rest
  | _, [] => False

namespace Reader

/-- The end of a term demands nothing. -/
theorem demands_endTerm : reader.endTerm.Demands xs ↔ reader.Demands xs := by
  simp only [Demands, endTerm_division, endTerm_opens, endTerm_awaited]

/-- Behind the opening bracket of a definition its name is awaited. -/
def Sane (reader : Reader) : Prop :=
  reader.division = .opening → reader.awaited = .name

theorem Sane.endTerm (h : reader.Sane) : reader.endTerm.Sane := by
  rw [Sane, endTerm_division, endTerm_awaited]
  exact h

theorem Sane.division_ne (h : Sane ⟨division, opens, awaited, words, clauses⟩)
    (hawaited : awaited ≠ .name) : division ≠ .opening :=
  fun hdivision => hawaited (h hdivision)

theorem Sane.of_ne (h : division ≠ .opening) :
    Sane ⟨division, opens, awaited, words, clauses⟩ :=
  fun hdivision => absurd hdivision h

theorem Step.sane (h : Step reader x next) (hsane : reader.Sane) : next.Sane := by
  cases h with
  | literal _ => exact (Sane.of_ne (hsane.division_ne (by simp))).endTerm
  | directive _ => exact fun _ => rfl
  | name hdivision _ => exact (Sane.of_ne hdivision).endTerm
  | blockOpen _ => exact .of_ne (hsane.division_ne (by simp))
  | blockClose _ => exact .of_ne (hsane.division_ne (by simp))
  | combinator _ => exact (Sane.of_ne (hsane.division_ne (by simp))).endTerm
  | test _ => exact .of_ne (hsane.division_ne (by simp))
  | alternative _ => exact .of_ne (hsane.division_ne (by simp))
  | testEnd _ _ => exact (Sane.of_ne (hsane.division_ne (by simp))).endTerm
  | definitionStart _ => exact fun _ => rfl
  | definitionName _ => exact .of_ne (by simp)
  | definitionEnd _ => exact .of_ne (by simp)

theorem run_sane {final : Reader} (h : reader.run xs = .ok final) (hsane : reader.Sane) :
    final.Sane := by
  induction xs generalizing reader with
  | nil =>
    obtain rfl := Except.ok.inj h
    exact hsane
  | cons x rest ih =>
    rw [run] at h
    split at h
    · rename_i hstep
      exact ih h ((Step.of_step? hstep).sane hsane)
    · cases h

/-- One word back, a reader demands the word and what is demanded behind it. -/
theorem Step.demands (h : Step reader x next) (hsane : reader.Sane) (hnext : next.Demands rest) :
    reader.Demands (x :: rest) := by
  cases h with
  | literal hx => exact (demands_endTerm.mp hnext).item (.literal hx)
  | directive hx =>
    cases rest with
    | nil => exact absurd hnext id
    | cons name rest =>
      obtain ⟨hname, hrest⟩ := hnext
      -- The name is that of a variable, since no definition is being opened.
      rw [if_neg (hsane.division_ne (by simp))] at hrest
      exact hrest.item (.directive hx hname)
  | name hdivision hx =>
    refine ⟨hx, ?_⟩
    rw [if_neg hdivision]
    exact demands_endTerm.mp hnext
  | blockOpen hx =>
    -- What is demanded inside the block closes the block first.
    cases hnext with
    | block hbody hclosing hcombinator hrest =>
      have hitem := IsItem.block hx hbody hclosing hcombinator
      have hcompletes := hrest.item hitem
      rwa [List.append_assoc] at hcompletes
    | branch hconstruct _ _ _ => exact absurd rfl hconstruct
  | blockClose hx =>
    cases rest with
    | nil => exact absurd hnext id
    | cons combinator rest =>
      obtain ⟨hcombinator, hrest⟩ := hnext
      exact .block .nil hx hcombinator hrest
  | combinator hx => exact ⟨hx, demands_endTerm.mp hnext⟩
  | test hx =>
    cases hnext with
    | branch _ hbody hending hrest =>
      have hcompletes := hrest.item (.conditional hx hbody hending)
      rwa [List.append_assoc] at hcompletes
    | branches hbody hmiddle halternative hending hrest =>
      have hcompletes := hrest.item (.twofold hx hbody hmiddle halternative hending)
      rwa [List.append_assoc] at hcompletes
  | alternative hx =>
    -- Behind the middle only the end of the conditional is left, not another middle.
    cases hnext with
    | branch _ hbody hending hrest => exact .branches .nil hx hbody hending hrest
  | testEnd hconstruct hx => exact .branch hconstruct .nil hx (demands_endTerm.mp hnext)
  | definitionStart hx =>
    cases rest with
    | nil => exact absurd hnext id
    | cons name rest =>
      obtain ⟨hname, hrest⟩ := hnext
      rw [if_pos rfl] at hrest
      cases hrest with
      | body hbody hclosing hrest => exact .text (.definition hx hname hbody hclosing hrest)
  | definitionName hx =>
    refine ⟨hx, ?_⟩
    rw [if_pos rfl]
    exact hnext
  | definitionEnd hx =>
    cases hnext with
    | text htext => exact .body .nil hx htext

theorem isComplete_iff : reader.isComplete = true ↔
    reader.division = .terms ∧ reader.opens = [] ∧ reader.awaited = .item := by
  simp [isComplete, isSettled]

/-- The words up to a place where a text may end are those that were demanded. -/
theorem demands_of_run {final : Reader} (h : reader.run xs = .ok final) (hsane : reader.Sane)
    (hcomplete : final.isComplete = true) : reader.Demands xs := by
  induction xs generalizing reader with
  | nil =>
    obtain rfl := Except.ok.inj h
    obtain ⟨division, opens, awaited, words, clauses⟩ := reader
    obtain ⟨rfl, rfl, rfl⟩ := isComplete_iff.mp hcomplete
    exact .text .nil
  | cons x rest ih =>
    rw [run] at h
    split at h
    · rename_i hstep
      have hstep := Step.of_step? hstep
      exact hstep.demands hsane (ih h (hstep.sane hsane))
    · cases h

theorem start_sane : start.Sane := fun hdivision => by cases hdivision

/-- A text is accepted exactly if the grammar has it. -/
theorem accepted_iff : (∃ final, start.run xs = .ok final ∧ final.isComplete = true) ↔
    IsText Lexeme.kind xs := by
  constructor
  · -- Nothing is open at the start, so what is demanded there is a text.
    intro ⟨final, hrun, hcomplete⟩
    have hdemands := demands_of_run hrun start_sane hcomplete
    cases hdemands with
    | text htext => exact htext
  · intro htext
    obtain ⟨clauses, hreads⟩ := Reads.of_isText htext
    exact ⟨_, hreads.run, rfl⟩

end Reader

/-! ## Leading a reader to the end -/

/-- The kinds of words that close a construct. -/
def Construct.closing : Construct → List Kind
  | .block => [.blockClose, .combinator]
  | .consequent => [.testEnd]
  | .alternative => [.testEnd]

theorem Construct.closing_of_ne {construct : Construct} (h : construct ≠ .block) :
    construct.closing = [.testEnd] := by
  cases construct with
  | block => exact absurd rfl h
  | consequent => rfl
  | alternative => rfl

/-- The kinds of words that close a part of the text. -/
def Section.closing : Section → List Kind
  | .terms => []
  | .opening => [.definitionEnd]
  | .body _ => [.definitionEnd]

/-- The kinds of words that meet what is awaited. -/
def Awaited.closing : Awaited → List Kind
  | .item => []
  | .combinator => [.combinator]
  | .name => [.word]

/-- The kinds of words that close everything that is open, innermost first. -/
def Reader.closing (reader : Reader) : List Kind :=
  reader.awaited.closing ++ (reader.opens.flatMap Construct.closing ++ reader.division.closing)

/-- A word of a kind. -/
def wordOf (kind : Kind) : Lexeme := ⟨kind, "", 0, 0⟩

theorem map_kind_wordOf (kinds : List Kind) : (kinds.map wordOf).map Lexeme.kind = kinds := by
  induction kinds with
  | nil => rfl
  | cons kind rest ih =>
    rw [List.map_cons, List.map_cons, ih]
    rfl

namespace Reader

/-- What a term ends with is a place where an item may start, as before. -/
theorem endTerm_eq : ∃ words' clauses',
    endTerm ⟨division, opens, awaited, words, clauses⟩
      = ⟨division, opens, awaited, words', clauses'⟩ := by
  unfold endTerm
  split
  · exact ⟨_, _, rfl⟩
  · exact ⟨_, _, rfl⟩

theorem run_closing_opens (hdivision : division ≠ .opening) :
    ∃ final, run ⟨division, opens, .item, words, clauses⟩
        ((opens.flatMap Construct.closing ++ division.closing).map wordOf) = .ok final
      ∧ final.isComplete = true := by
  induction opens generalizing words clauses with
  | nil =>
    cases division with
    | terms => exact ⟨_, rfl, rfl⟩
    | opening => exact absurd rfl hdivision
    | body name => exact ⟨_, run_of_step (.definitionEnd rfl), rfl⟩
  | cons construct outer ih =>
    rw [List.flatMap_cons, List.append_assoc, List.map_append]
    -- With the words that close the innermost construct a term may have ended.
    have hbehind : ∀ words, ∃ final,
        (endTerm ⟨division, outer, .item, words, clauses⟩).run
            ((outer.flatMap Construct.closing ++ division.closing).map wordOf) = .ok final
          ∧ final.isComplete = true := by
      intro words
      obtain ⟨words', clauses', hend⟩ := endTerm_eq
      rw [hend]
      exact ih
    by_cases hblock : construct = .block
    · subst hblock
      obtain ⟨final, hrun, hcomplete⟩ := hbehind _
      refine ⟨final, ?_, hcomplete⟩
      rw [Construct.closing, List.map_cons, List.cons_append, run_of_step (.blockClose rfl),
        List.map_singleton, List.singleton_append, run_of_step (.combinator rfl), hrun]
    · obtain ⟨final, hrun, hcomplete⟩ := hbehind _
      refine ⟨final, ?_, hcomplete⟩
      rw [Construct.closing_of_ne hblock, List.map_singleton, List.singleton_append,
        run_of_step (.testEnd hblock rfl), hrun]

/-- The words that close everything that is open lead to the end of a text. -/
theorem run_closing (hsane : reader.Sane) :
    ∃ final, reader.run (reader.closing.map wordOf) = .ok final
      ∧ final.isComplete = true := by
  obtain ⟨division, opens, awaited, words, clauses⟩ := reader
  cases awaited with
  | item => exact run_closing_opens (hsane.division_ne (by simp))
  | combinator =>
    obtain ⟨words', clauses', hend⟩ := endTerm_eq
    obtain ⟨final, hrun, hcomplete⟩ := run_closing_opens (hsane.division_ne (by simp))
    refine ⟨final, ?_, hcomplete⟩
    rw [closing, Awaited.closing, List.singleton_append, List.map_cons,
      run_of_step (.combinator rfl), hend, hrun]
  | name =>
    rw [closing, Awaited.closing, List.singleton_append, List.map_cons]
    by_cases hdivision : division = .opening
    · -- The awaited name opens the body of a definition.
      subst hdivision
      obtain ⟨final, hrun, hcomplete⟩ :=
        @run_closing_opens (.body (wordOf .word)) opens words clauses (by simp)
      exact ⟨final, (run_of_step (.definitionName rfl)).trans hrun, hcomplete⟩
    · obtain ⟨words', clauses', hend⟩ := endTerm_eq
      obtain ⟨final, hrun, hcomplete⟩ := run_closing_opens hdivision
      refine ⟨final, ?_, hcomplete⟩
      rw [run_of_step (.name hdivision rfl), hend, hrun]

/-- The words that were read make up a text with those that close everything that is open. -/
theorem isText_closing (h : start.run xs = .ok reader) :
    IsText id (xs.map Lexeme.kind ++ reader.closing) := by
  obtain ⟨final, hrun, hcomplete⟩ := run_closing (run_sane h start_sane)
  have happend : start.run (xs ++ reader.closing.map wordOf) = .ok final := by
    rw [run_append, h]
    exact hrun
  have htext := (accepted_iff.mp ⟨final, happend, hcomplete⟩).map
  rwa [List.map_append, map_kind_wordOf] at htext

/-- The words that were read are the start of a text. -/
theorem viable_of_run (h : start.run xs = .ok reader) : IsViable (xs.map Lexeme.kind) :=
  ⟨reader.closing, isText_closing h⟩

/-! ## Refused words -/

/-- A run ends at the first word that cannot stand where it stands. -/
theorem run_error {refused : Refused} (h : reader.run xs = .error refused) :
    ∃ before after last, xs = before ++ refused.lexeme :: after
      ∧ reader.run before = .ok last ∧ last.step? refused.lexeme = none
      ∧ refused.problem = complaint last.awaited refused.lexeme := by
  induction xs generalizing reader with
  | nil => cases h
  | cons x rest ih =>
    rw [run] at h
    split at h
    · rename_i next hstep
      obtain ⟨before, after, last, hxs, hrun, hlast, hproblem⟩ := ih h
      refine ⟨x :: before, after, last, ?_, ?_, hlast, hproblem⟩
      · rw [hxs, List.cons_append]
      · rw [run, hstep]
        exact hrun
    · rename_i hstep
      obtain rfl := Except.error.inj h
      exact ⟨[], rest, reader, rfl, rfl, hstep, rfl⟩

/-- A refused word leaves no text that the words could be the start of. -/
theorem not_viable_of_refused (hrun : start.run xs = .ok reader) (hstep : reader.step? x = none) :
    ¬IsViable ((xs ++ [x]).map Lexeme.kind) := by
  intro ⟨more, htext⟩
  rw [← map_kind_wordOf more, ← List.map_append] at htext
  -- Any words of the missing kinds would do, and the run over them passes the refused one.
  obtain ⟨final, hfinal, _⟩ := accepted_iff.mpr (htext.of_map rfl)
  rw [List.append_assoc, run_append, hrun, Except.bind, List.singleton_append, run, hstep] at hfinal
  cases hfinal

/-- Words are read on exactly as long as they are the start of a text. -/
theorem viable_iff : IsViable (xs.map Lexeme.kind) ↔ ∃ reader, start.run xs = .ok reader := by
  constructor
  · intro hviable
    cases hrun : start.run xs with
    | ok reader => exact ⟨reader, rfl⟩
    | error refused =>
      obtain ⟨before, after, last, rfl, hbefore, hstep, _⟩ := run_error hrun
      rw [List.append_cons, List.map_append] at hviable
      exact absurd hviable.of_append (not_viable_of_refused hbefore hstep)
  · intro ⟨reader, hrun⟩
    exact viable_of_run hrun

end Reader

/-- No complaint about a word says that more text could mend the fault. -/
theorem complaint_isIncomplete (awaited : Awaited) (x : Lexeme) :
    (complaint awaited x).isIncomplete = false := by
  unfold complaint
  split
  · rfl
  · rfl
  · rfl
  · rfl
  · rfl
  · split
    · rfl
    · split
      · rfl
      · split <;> rfl

end Clause

/-! ## Whole texts -/

open Clause Grammar

section

variable {source : String} {name : Option String} {clauses : List Clause}

/-- A text that parses has no stray blank. -/
theorem stray_eq_none_of_parse (h : parse source name = .ok clauses) :
    (scan source).stray = none := by
  simp only [parse] at h
  split at h
  · cases h
  · split at h
    · cases h
    · rename_i hstray
      exact hstray

/-- A text parses to the clauses that the grammar reads off its words. -/
theorem parse_ok_iff (hstray : (scan source).stray = none) :
    parse source name = .ok clauses ↔ Reads clauses (scan source).lexemes := by
  constructor
  · intro h
    simp only [parse, hstray] at h
    split at h
    · cases h
    · rename_i reader hrun
      split at h
      · rename_i hcomplete
        obtain rfl := Except.ok.inj h
        obtain ⟨clauses, hreads⟩ := Reads.of_isText (Reader.accepted_iff.mp ⟨reader, hrun, hcomplete⟩)
        obtain rfl := Except.ok.inj (hreads.run.symm.trans hrun)
        rwa [List.append_nil, List.reverse_reverse]
      · cases h
  · intro h
    have hrun : Reader.start.run (scan source).lexemes = _ := h.run
    simp only [parse, hrun, hstray]
    rw [List.append_nil, List.reverse_reverse]
    rfl

theorem exists_parse_iff (hstray : (scan source).stray = none) :
    (∃ clauses, parse source name = .ok clauses)
      ↔ IsText Lexeme.kind (scan source).lexemes := by
  constructor
  · intro ⟨clauses, h⟩
    exact ((parse_ok_iff hstray).mp h).isText
  · intro htext
    obtain ⟨clauses, hreads⟩ := Reads.of_isText htext
    exact ⟨clauses, (parse_ok_iff hstray).mpr hreads⟩

/-- A refused word is to blame for more than that a text is not finished. -/
theorem parse_of_refused {refused : Refused}
    (hrun : Reader.start.run (scan source).lexemes = .error refused) :
    parse source name = .error (refused.fault name) := by
  simp only [parse, hrun]

theorem parse_of_unfinished {reader : Reader} (hstray : (scan source).stray = none)
    (hrun : Reader.start.run (scan source).lexemes = .ok reader)
    (hcomplete : reader.isComplete = false) :
    parse source name = .error (unfinishedFault name (scan source).lexemes.getLast?) := by
  simp only [parse, hrun, hstray, hcomplete]
  rfl

/-- The fault of a refused word is of the class of hard faults. -/
theorem category_of_refused {xs : List Lexeme} {refused : Refused}
    (hrun : Reader.start.run xs = .error refused) :
    (Cause.source (refused.fault name)).category = .parse := by
  obtain ⟨before, after, last, _, _, _, hproblem⟩ := Reader.run_error hrun
  have hhard := complaint_isIncomplete last.awaited refused.lexeme
  rw [← hproblem] at hhard
  exact if_neg (by rw [Refused.fault, hhard]; simp)

/-- A text is incomplete if it does not derive from the grammar but can go on to. -/
theorem parse_incomplete_iff (hstray : (scan source).stray = none) :
    (∃ fault, parse source name = .error fault ∧ (Cause.source fault).category = .incomplete) ↔
      ¬IsText Lexeme.kind (scan source).lexemes
        ∧ IsViable ((scan source).lexemes.map Lexeme.kind) := by
  rw [Reader.viable_iff]
  constructor
  · intro ⟨fault, hparse, hcategory⟩
    constructor
    · intro htext
      obtain ⟨clauses, hok⟩ := (exists_parse_iff hstray).mpr htext
      exact absurd (hok.symm.trans hparse) (by simp)
    · cases hrun : Reader.start.run (scan source).lexemes with
      | ok reader => exact ⟨reader, rfl⟩
      | error refused =>
        obtain rfl := Except.error.inj ((parse_of_refused hrun).symm.trans hparse)
        rw [category_of_refused hrun] at hcategory
        cases hcategory
  · intro ⟨htext, reader, hrun⟩
    have hcomplete : reader.isComplete = false := by
      rw [← Bool.not_eq_true]
      intro hcomplete
      exact htext (Reader.accepted_iff.mp ⟨reader, hrun, hcomplete⟩)
    exact ⟨_, parse_of_unfinished hstray hrun hcomplete, rfl⟩

end

/-- The three outcomes for a text without stray blanks, by the kinds of its words: it
    parses if they derive from the grammar; it is incomplete if they do not, but more
    words could make them; otherwise the first word is to blame with which they are no
    longer the start of anything that derives. -/
theorem parse_decides_grammar (source : String) (name : Option String)
    (hstray : (scan source).stray = none) :
    let words := (scan source).lexemes
    let kinds := words.map Lexeme.kind
    ((∃ clauses, parse source name = .ok clauses) ↔ IsText id kinds) ∧
    ((∃ fault, parse source name = .error fault ∧ (Cause.source fault).category = .incomplete) ↔
      ¬IsText id kinds ∧ ∃ more, more ≠ [] ∧ IsText id (kinds ++ more)) ∧
    (¬IsText id kinds → (¬∃ more, more ≠ [] ∧ IsText id (kinds ++ more)) →
      ∃ fault before x after, parse source name = .error fault ∧
        (Cause.source fault).category = .parse ∧
        words = before ++ x :: after ∧
        IsViable (before.map Lexeme.kind) ∧ ¬IsViable ((before ++ [x]).map Lexeme.kind) ∧
        fault.token = x.text ∧ fault.line = some x.line ∧ fault.column = some x.column) := by
  intro words kinds
  refine ⟨?_, ?_, ?_⟩
  · rw [exists_parse_iff hstray, isText_map_iff]
  · rw [parse_incomplete_iff hstray, isText_map_iff]
    constructor
    · intro ⟨htext, hviable⟩
      exact ⟨htext, (goesOn_iff (mt isText_map_iff.mp htext)).mpr hviable⟩
    · intro ⟨htext, hviable⟩
      exact ⟨htext, (goesOn_iff (mt isText_map_iff.mp htext)).mp hviable⟩
  · intro htext hdead
    rw [goesOn_iff htext] at hdead
    cases hrun : Reader.start.run words with
    | ok reader => exact absurd (Reader.viable_of_run hrun) hdead
    | error refused =>
      obtain ⟨before, after, last, hwords, hbefore, hstep, _⟩ := Reader.run_error hrun
      exact ⟨refused.fault name, before, refused.lexeme, after, parse_of_refused hrun,
        category_of_refused hrun, hwords, Reader.viable_of_run hbefore,
        Reader.not_viable_of_refused hbefore hstep, rfl, rfl, rfl⟩

/-- Of `[ 1 ] fi` the last word is to blame, where a combinator has to stand. -/
theorem parse_blames_missing_combinator :
    (scan "[ 1 ] fi").stray = none ∧
    ∃ fault before x after, parse "[ 1 ] fi" none = .error fault ∧
      (Cause.source fault).category = .parse ∧
      (scan "[ 1 ] fi").lexemes = before ++ x :: after ∧
      IsViable (before.map Lexeme.kind) ∧ ¬IsViable ((before ++ [x]).map Lexeme.kind) ∧
      fault.token = x.text ∧ fault.line = some x.line ∧ fault.column = some x.column := by
  have hstray : (scan "[ 1 ] fi").stray = none := by decide +kernel
  have hwords : (scan "[ 1 ] fi").lexemes
      = [⟨.blockOpen, "[", 1, 1⟩, ⟨.number, "1", 1, 3⟩, ⟨.blockClose, "]", 1, 5⟩,
        ⟨.testEnd, "fi", 1, 7⟩] := by decide +kernel
  have hparse : parse "[ 1 ] fi" none
      = .error ⟨.outsideConditional "fi", "fi", none, some 1, some 7⟩ := by
    simp only [parse, hwords]
    rfl
  have h := parse_decides_grammar "[ 1 ] fi" none hstray
  refine ⟨hstray, h.2.2 ?_ ?_⟩
  · intro htext
    obtain ⟨clauses, hok⟩ := h.1.mpr htext
    rw [hparse] at hok
    cases hok
  · intro hmore
    have htext : ¬IsText id ((scan "[ 1 ] fi").lexemes.map Lexeme.kind) := by
      intro htext
      obtain ⟨clauses, hok⟩ := h.1.mpr htext
      rw [hparse] at hok
      cases hok
    obtain ⟨fault, hfault, hcategory⟩ := h.2.1.mpr ⟨htext, hmore⟩
    rw [hparse] at hfault
    cases hfault
    cases hcategory

end StackCalc
