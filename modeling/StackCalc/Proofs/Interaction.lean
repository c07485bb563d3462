/-
  StackCalc.Proofs.Interaction

  The interactive calculator on the lines of a text.  A line end is where lines are run that
  have been collected, if they are a text, so every text that is typed in line by line is run
  piece by piece: lines in front of a text are a text themselves or merely unfinished, and never
  wrong (`feed_waits`).  If the definitions come first, each line leaves the interaction on the
  way to what one run of the text leaves (`Amid.step`), and all lines leave that
  (`interact_eq_run`).
-/

import StackCalc.Proofs.Pieces
import StackCalc.Shell.Repl

namespace StackCalc

open Clause Grammar Text

/-! ## Definitions in front of terms -/

namespace Clause

/-- Whether a clause is a definition. -/
def isDefinition : Clause → Bool
  | .definition .. => true
  | .term _ => false

/-- Every definition comes before the first term. -/
def DefinitionsFirst (clauses : List Clause) : Prop :=
  ∃ definitions terms, clauses = definitions ++ terms
    ∧ (∀ x ∈ definitions, x.isDefinition = true) ∧ ∀ x ∈ terms, x.isDefinition = false

variable {clauses first second : List Clause}

theorem termWords_of_definitions (h : ∀ x ∈ clauses, x.isDefinition = true) :
    termWords clauses = [] := by
  rw [termWords, List.flatMap_eq_nil_iff]
  intro x hx
  cases x with
  | definition name body => rfl
  | term words => cases h _ hx

theorem definitionsOf_of_terms (h : ∀ x ∈ clauses, x.isDefinition = false) :
    definitionsOf clauses = [] := by
  rw [definitionsOf, List.filterMap_eq_nil_iff]
  intro x hx
  cases x with
  | definition name body => cases h _ hx
  | term words => rfl

/-- Wherever such clauses are cut, no term comes before a definition behind the cut. -/
theorem DefinitionsFirst.cut (h : DefinitionsFirst (first ++ second)) :
    (termWords first = [] ∨ definitionsOf second = []) ∧ DefinitionsFirst second := by
  obtain ⟨definitions, terms, hclauses, hdefinitions, hterms⟩ := h
  obtain ⟨more, rfl, rfl⟩ | ⟨more, rfl, rfl⟩ := List.append_eq_append_iff.mp hclauses
  · obtain ⟨hfirst, hmore⟩ := List.forall_mem_append.mp hdefinitions
    exact ⟨Or.inl (termWords_of_definitions hfirst), more, terms, rfl, hmore, hterms⟩
  · obtain ⟨-, hsecond⟩ := List.forall_mem_append.mp hterms
    exact ⟨Or.inr (definitionsOf_of_terms hsecond), [], second, rfl, nofun, hsecond⟩

theorem isDefinition_unplaced (x : Clause) : x.unplaced.isDefinition = x.isDefinition := by
  cases x <;> rfl

theorem DefinitionsFirst.unplaced (h : DefinitionsFirst clauses) :
    DefinitionsFirst (clauses.map Clause.unplaced) := by
  obtain ⟨definitions, terms, rfl, hdefinitions, hterms⟩ := h
  refine ⟨_, _, List.map_append, ?_, ?_⟩
  · intro x hx
    obtain ⟨y, hy, rfl⟩ := List.mem_map.mp hx
    rw [isDefinition_unplaced, hdefinitions y hy]
  · intro x hx
    obtain ⟨y, hy, rfl⟩ := List.mem_map.mp hx
    rw [isDefinition_unplaced, hterms y hy]

end Clause

/-! ## Lines -/

/-- A line that closes its comments and has no stray blank. -/
structure IsPlainLine (line : String) : Prop where
  closed : endsInComment line = false
  stray : (scan line).stray = none

/-- Lines one below another are as plain as each of them, and have the words of all of them. -/
theorem intercalate_plain {lines : List String}
    (hclosed : ∀ line ∈ lines, endsInComment line = false)
    (hstray : (scan ("\n".intercalate lines)).stray = none) :
    (∀ line ∈ lines, IsPlainLine line)
      ∧ bareWords ("\n".intercalate lines) = lines.flatMap bareWords := by
  induction lines with
  | nil => exact ⟨nofun, by decide +kernel⟩
  | cons line rest ih =>
    cases rest with
    | nil =>
      rw [String.intercalate_singleton] at hstray ⊢
      refine ⟨?_, by simp⟩
      rw [List.forall_mem_singleton] at hclosed ⊢
      exact ⟨hclosed, hstray⟩
    | cons line' rest =>
      obtain ⟨hline, hrest⟩ := List.forall_mem_cons.mp hclosed
      rw [String.intercalate_cons_cons] at hstray ⊢
      obtain ⟨hstray, hstrays⟩ := (stray_line hline).mp hstray
      obtain ⟨hplain, hwords⟩ := ih hrest hstrays
      refine ⟨List.forall_mem_cons.mpr ⟨⟨hline, hstray⟩, hplain⟩, ?_⟩
      rw [bareWords_line hline hstray, hwords]
      rfl

/-- A line end changes neither the words of a text nor what is open behind it. -/
theorem IsPlainLine.ended {line : String} (h : IsPlainLine line) :
    IsPlainLine (line ++ "\n") ∧ (scan (line ++ "\n")).lexemes = (scan line).lexemes := by
  have hend : line ++ "\n" = line ++ "\n" ++ "" := by rw [String.append_empty]
  have hnothing : scan "" = ⟨[], none⟩ := by decide +kernel
  refine ⟨⟨?_, ?_⟩, ?_⟩
  · rw [hend, endsInComment_line, h.closed]
    decide +kernel
  · rw [hend, stray_line h.closed]
    exact ⟨h.stray, by rw [hnothing]⟩
  · obtain ⟨below, hlexemes, hbelow⟩ := lexemes_line h.closed h.stray ""
    rw [bareWords, hnothing] at hbelow
    rw [hend, hlexemes, List.map_eq_nil_iff.mp hbelow, List.append_nil]

theorem IsPlainLine.below {first second : String} (h : IsPlainLine first)
    (h' : IsPlainLine second) : IsPlainLine (first ++ "\n" ++ second) where
  closed := by rw [endsInComment_line, h.closed]; exact h'.closed
  stray := (stray_line h.closed).mpr ⟨h.stray, h'.stray⟩

/-- A text of which nothing is left without some characters in front has no others. -/
theorem all_of_dropWhile_nil {p : Char → Bool} {s : List Char} (h : s.dropWhile p = []) :
    s.all p = true := by
  have hs : s.takeWhile p = s := by
    have happend := List.takeWhile_append_dropWhile (p := p) (l := s)
    rwa [h, List.append_nil] at happend
  rw [← hs]
  exact List.all_takeWhile ..

theorem all_of_trim_nil {p : Char → Bool} {s : List Char} (h : trim p s = []) :
    s.all p = true := by
  rw [trim, List.reverse_eq_nil_iff] at h
  have hback := all_of_dropWhile_nil h
  rw [List.all_reverse] at hback
  rw [← List.takeWhile_append_dropWhile (p := p) (l := s), List.all_append, List.all_takeWhile,
    hback]
  rfl

theorem scanFrom_blanks {s : List Char} (h : s.all isBlank = true) (p : Position) :
    (scanFrom p s).lexemes = [] := by
  induction s generalizing p with
  | nil => rw [scanFrom]
  | cons c rest ih =>
    rw [List.all_cons, Bool.and_eq_true] at h
    rw [scanFrom]
    split
    · exact ih h.2 _
    · rw [if_pos h.1]

/-- A line of blanks has no words. -/
theorem bareWords_blank {line : String} (h : trim isBlank line.toList = []) :
    bareWords line = [] := by
  rw [bareWords, scan, scanFrom_blanks (all_of_trim_nil h), List.map_nil]

/-! ## Single lines -/

/-- Lines that were collected: none, or plain lines with some words, the last of them ended. -/
inductive Collects : String → List Lexeme → Prop
  | nothing : Collects "" []
  | lines {text : String} (hplain : IsPlainLine text) : Collects (text ++ "\n") (bareWords text)

variable {waiting line : String} {words : List Lexeme}

/-- With one more line its words are collected, and no blank that must not stand there. -/
theorem Collects.another (h : Collects waiting words) (hline : IsPlainLine line) :
    Collects (waiting ++ line ++ "\n") (words ++ bareWords line) := by
  cases h with
  | nothing =>
    rw [String.empty_append]
    exact .lines hline
  | @lines text hplain =>
    rw [← bareWords_line hplain.closed hplain.stray]
    exact .lines (hplain.below hline)

theorem Collects.scanned (h : Collects waiting words) :
    (scan waiting).stray = none ∧ bareWords waiting = words := by
  cases h with
  | nothing => exact ⟨by decide +kernel, by decide +kernel⟩
  | lines hplain =>
    obtain ⟨hended, hlexemes⟩ := hplain.ended
    exact ⟨hended.stray, by rw [bareWords, bareWords, hlexemes]⟩

theorem isText_bareWords (source : String) :
    IsText Lexeme.kind (bareWords source) ↔ IsText Lexeme.kind (scan source).lexemes := by
  rw [← isText_map_iff, kinds_bareWords, isText_map_iff]

/-- Lines that were collected parse if they are a text. -/
theorem Collects.parse_text (h : Collects waiting words) (htext : IsText Lexeme.kind words)
    (name : Option String) :
    ∃ clauses, parse waiting name = .ok clauses ∧ Reads (clauses.map Clause.unplaced) words := by
  obtain ⟨hstray, rfl⟩ := h.scanned
  obtain ⟨clauses, hparse⟩ := (exists_parse_iff hstray).mpr ((isText_bareWords _).mp htext)
  exact ⟨clauses, hparse, ((parse_ok_iff hstray).mp hparse).unplaced⟩

/-- Lines that were collected are merely unfinished if they only begin a text. -/
theorem Collects.parse_unfinished (h : Collects waiting words) {rest : List Lexeme}
    (htext : IsText Lexeme.kind (words ++ rest)) (hunfinished : ¬IsText Lexeme.kind words)
    (name : Option String) :
    ∃ fault, parse waiting name = .error fault ∧ (Cause.source fault).category = .incomplete := by
  obtain ⟨hstray, rfl⟩ := h.scanned
  refine (parse_incomplete_iff hstray).mpr ⟨mt (isText_bareWords _).mpr hunfinished, ?_⟩
  have hviable := htext.map
  rw [List.map_append, kinds_bareWords] at hviable
  exact ⟨_, hviable⟩

/-- Nothing to run leaves everything as it is. -/
theorem Session.perform_nil (session : Session) (name : Option String) (stack : Stack) :
    (session.perform name [] stack 0).result = .ok stack
      ∧ session.Like (session.perform name [] stack 0).session := by
  have hread : WellRead [] := ⟨nofun, .nil, nofun⟩
  have hnodes : Assembly.Assembles (tokens name (termWords [])) [] := .nil
  obtain ⟨remarks, hperform⟩ := session.perform_eq hread hnodes stack 0
  rw [hperform, Session.run_nil]
  exact ⟨rfl, rfl, rfl, rfl, rfl⟩

namespace Shell.Repl

variable {desk : Desk} {repl : Repl}

/-- The text that is run with a line. -/
def sourceWith (repl : Repl) (line : String) : String := repl.waiting ++ line ++ "\n"

/-- A line of blanks is passed over. -/
theorem feed_blank (desk : Desk) (repl : Repl) (h : (word line).isEmpty = true) :
    repl.feed desk line = ((repl, .none), none) := by
  rw [feed, if_pos h]

/-- Lines that run to an end leave nothing to wait for. -/
theorem feed_ok (desk : Desk) (h : ¬(word line).isEmpty = true) {stack : Stack}
    (hrun : (repl.session.run (repl.sourceWith line) repl.stack (some name) desk.verbosity).result
      = .ok stack) :
    ∃ output, repl.feed desk line
      = ((⟨(repl.session.run (repl.sourceWith line) repl.stack (some name) desk.verbosity).session,
          stack, "", repl.failed⟩, output), none) := by
  rw [feed, if_neg h]
  rw [sourceWith] at hrun ⊢
  simp only [hrun]
  exact ⟨_, rfl⟩

/-- Lines that are merely unfinished wait for more, and nothing else changes. -/
theorem feed_waits (desk : Desk) (h : ¬(word line).isEmpty = true) {fault : SourceError}
    (hparse : parse (repl.sourceWith line) (some name) = .error fault)
    (hcategory : (Cause.source fault).category = .incomplete) :
    ∃ output, repl.feed desk line
      = (({ repl with waiting := repl.sourceWith line }, output), none) := by
  have hunfinished : isUnfinished (.failure (.ofSource fault)) = true := by
    simp only [isUnfinished, Failure.ofSource, hcategory, decide_true]
  have hrun := repl.session.run_of_parse_error hparse repl.stack desk.verbosity
  rw [feed, if_neg h]
  rw [sourceWith] at hrun ⊢
  simp only [hrun, Session.unchanged, hunfinished, if_true]
  exact ⟨_, rfl⟩

/-- The interaction goes on behind a line that was dealt with. -/
theorem interact_cons {next : Repl} {more : Output} (hexit : isExit line = false)
    (hfeed : repl.feed desk line = ((next, more), none)) (output : Output) (rest : List String) :
    ∃ output', repl.interact desk output (line :: rest) = next.interact desk output' rest := by
  rw [interact, hexit, hfeed]
  exact ⟨_, rfl⟩

/-- How an interaction ends that has run a text: nothing has failed and nothing waits, and the
    stack and the session are those of an outcome. -/
structure Leaves (repl : Repl) (stack : Stack) (outcome : Outcome Stack) : Prop where
  failed : repl.failed = false
  waiting : repl.waiting = ""
  stack : repl.stack = stack
  session : repl.session.Like outcome.session

/-- An interaction within a text: nothing has failed, the words that wait are not a text yet, and
    with the words ahead they are clauses, definitions first, that run to an end. -/
structure Amid (repl : Repl) (words ahead : List Lexeme) (clauses : List Clause) (stack : Stack) :
    Prop where
  failed : repl.failed = false
  collects : Collects repl.waiting words
  waiting : repl.waiting = "" ∨ ¬IsText Lexeme.kind words
  reads : Reads clauses (words ++ ahead)
  genuine : ∀ x ∈ words ++ ahead, x.Genuine
  order : DefinitionsFirst clauses
  runs : (repl.session.perform none clauses repl.stack 0).result = .ok stack

variable {clauses : List Clause} {ahead : List Lexeme} {stack : Stack}

/-- With nothing ahead nothing waits, and there is nothing left to run. -/
theorem Amid.leaves (h : repl.Amid words [] clauses stack) :
    repl.Leaves stack (repl.session.perform none clauses repl.stack 0) := by
  have hreads := h.reads
  rw [List.append_nil] at hreads
  -- The words that wait are all the words, so they are a text.
  have hnothing : repl.waiting = "" := h.waiting.resolve_right (not_not_intro hreads.isText)
  have hwords : words = [] := by
    rw [← h.collects.scanned.2, hnothing]
    decide +kernel
  rw [hwords] at hreads
  obtain rfl := hreads.unique .nil
  obtain ⟨hresult, hlike⟩ := repl.session.perform_nil none repl.stack
  have hstack := h.runs
  rw [hresult] at hstack
  exact ⟨h.failed, hnothing, Except.ok.inj hstack, hlike⟩

/-- A line of blanks has no words, so it can be left out. -/
theorem Amid.skip (h : repl.Amid words (bareWords line ++ ahead) clauses stack)
    (hblank : (word line).isEmpty = true) : repl.Amid words ahead clauses stack := by
  have hwords : bareWords line = [] := by
    rw [word, String.isEmpty_iff, String.ofList_eq_empty_iff] at hblank
    exact bareWords_blank hblank
  rwa [hwords, List.nil_append] at h

/-- A line that leaves a text unfinished waits for the next one. -/
theorem Amid.wait (h : repl.Amid words (bareWords line ++ ahead) clauses stack)
    (hplain : IsPlainLine line) (hblank : ¬(word line).isEmpty = true)
    (hunfinished : ¬IsText Lexeme.kind (words ++ bareWords line)) :
    (∃ output, repl.feed desk line
        = (({ repl with waiting := repl.sourceWith line }, output), none))
      ∧ ({ repl with waiting := repl.sourceWith line } : Repl).Amid (words ++ bareWords line) ahead
          clauses stack := by
  have hanother : Collects (repl.sourceWith line) (words ++ bareWords line) :=
    h.collects.another hplain
  have hreads := h.reads
  have hgenuine := h.genuine
  rw [← List.append_assoc] at hreads hgenuine
  obtain ⟨fault, hparse, hcategory⟩ :=
    hanother.parse_unfinished hreads.isText hunfinished (some name)
  exact ⟨feed_waits desk hblank hparse hcategory,
    ⟨h.failed, hanother, Or.inr hunfinished, hreads, hgenuine, h.order, h.runs⟩⟩

/-- A line that finishes a text has the text run.  What is left of the clauses comes to the same
    on what this leaves. -/
theorem Amid.finish (h : repl.Amid words (bareWords line ++ ahead) clauses stack)
    (hplain : IsPlainLine line) (hblank : ¬(word line).isEmpty = true)
    (htext : IsText Lexeme.kind (words ++ bareWords line)) :
    ∃ next output second, repl.feed desk line = ((next, output), none)
      ∧ next.Amid [] ahead second stack
      ∧ (next.session.perform none second next.stack 0).session.Like
          (repl.session.perform none clauses repl.stack 0).session := by
  have hanother : Collects (repl.sourceWith line) (words ++ bareWords line) :=
    h.collects.another hplain
  obtain ⟨typed, hparse, hfirst⟩ := hanother.parse_text htext (some name)
  have hreads := h.reads
  have hgenuine := h.genuine
  have horder := h.order
  have hruns := h.runs
  rw [← List.append_assoc] at hreads hgenuine
  obtain ⟨second, hsecond, rfl⟩ := hfirst.rest hreads
  obtain ⟨hcut, horder⟩ := horder.cut
  obtain ⟨hgenuineFirst, hgenuineSecond⟩ := List.forall_mem_append.mp hgenuine
  have hreadFirst := hfirst.wellRead hgenuineFirst
  have hreadSecond := hsecond.wellRead hgenuineSecond
  have hpieces := repl.session.perform_append none repl.stack 0 hreadFirst hreadSecond
    (hreads.wellRead hgenuine) hcut
  obtain ⟨between, hbetween, hlast, hjoint⟩ := hpieces.of_ok hruns
  -- The lines that were collected are parsed under a name and at their own places.
  have htyped : (repl.session.run (repl.sourceWith line) repl.stack (some name)
        desk.verbosity).Like
      (repl.session.perform none (typed.map Clause.unplaced) repl.stack 0) := by
    rw [repl.session.run_eq_perform hparse]
    exact Session.perform_like (.refl repl.session) (unplaced_unplaced typed).symm
      (wellRead_of_parse hparse) hreadFirst repl.stack desk.verbosity 0
  obtain ⟨output, hfeed⟩ := feed_ok desk hblank (htyped.of_ok hbetween)
  -- So the session that they leave has other places than the one of the clauses.
  have hnext : (Session.perform _ none second between 0).Like
      (Session.perform _ none second between 0) :=
    Session.perform_like htyped.session rfl hreadSecond hreadSecond between 0 0
  refine ⟨_, output, second, hfeed, ?_, ?_⟩
  · exact ⟨h.failed, .nothing, Or.inl rfl, hsecond, hgenuineSecond, horder, hnext.of_ok hlast⟩
  · rw [hjoint]
    exact hnext.session

/-- Each line of a text leaves the interaction within the text, on the way to the same session. -/
theorem Amid.step (h : repl.Amid words (bareWords line ++ ahead) clauses stack)
    (hplain : IsPlainLine line) :
    ∃ next output words' clauses', repl.feed desk line = ((next, output), none)
      ∧ next.Amid words' ahead clauses' stack
      ∧ (next.session.perform none clauses' next.stack 0).session.Like
          (repl.session.perform none clauses repl.stack 0).session := by
  by_cases hblank : (word line).isEmpty = true
  · exact ⟨repl, .none, words, clauses, feed_blank desk repl hblank, h.skip hblank, .refl _⟩
  by_cases htext : IsText Lexeme.kind (words ++ bareWords line)
  · obtain ⟨next, output, second, hfeed, hamid, hlike⟩ := h.finish hplain hblank htext
    exact ⟨next, output, [], second, hfeed, hamid, hlike⟩
  · obtain ⟨⟨output, hfeed⟩, hamid⟩ := h.wait hplain hblank htext
    exact ⟨_, output, _, clauses, hfeed, hamid, .refl _⟩

/-- The lines of a text, the first of which may have been collected before, are run piece by
    piece, which leaves what a run of its clauses leaves. -/
theorem Amid.interact {lines : List String} (output : Output)
    (h : repl.Amid words (lines.flatMap bareWords) clauses stack)
    (hexit : ∀ line ∈ lines, isExit line = false) (hplain : ∀ line ∈ lines, IsPlainLine line) :
    ∃ last output', repl.interact desk output lines = ((last, output'), none)
      ∧ last.Leaves stack (repl.session.perform none clauses repl.stack 0) := by
  induction lines generalizing repl words clauses output with
  | nil => exact ⟨repl, _, rfl, h.leaves⟩
  | cons line rest ih =>
    obtain ⟨hexitLine, hexit⟩ := List.forall_mem_cons.mp hexit
    obtain ⟨hplainLine, hplain⟩ := List.forall_mem_cons.mp hplain
    rw [List.flatMap_cons] at h
    obtain ⟨next, more, words', clauses', hfeed, hamid, hlike⟩ := h.step hplainLine
    obtain ⟨output', hcons⟩ := interact_cons hexitLine hfeed output rest
    obtain ⟨last, output'', hinteract, hleaves⟩ := ih output' hamid hexit hplain
    rw [hcons]
    exact ⟨last, output'', hinteract, hleaves.failed, hleaves.waiting, hleaves.stack,
      hleaves.session.trans hlike⟩

end Shell.Repl

/-- The interactive calculator on the lines of a text, none of which ends the interaction and
    each of which closes its comments, leaves what one run of the text leaves that runs to an
    end, if every definition comes before the first term: no error, nothing that waits, the same
    stack and memory, and the same functions and definitions, apart from places. -/
theorem interact_eq_run (session : Session) (desk : Shell.Desk) (output : Shell.Output)
    (lines : List String) (name : Option String) (verbosity : Nat) (stack : Stack)
    {clauses : List Clause}
    (hexit : ∀ line ∈ lines, Shell.Repl.isExit line = false)
    (hclosed : ∀ line ∈ lines, endsInComment line = false)
    (hparse : parse ("\n".intercalate lines) name = .ok clauses)
    (horder : DefinitionsFirst clauses)
    (hrun : (session.run ("\n".intercalate lines) [] name verbosity).result = .ok stack) :
    ∃ last output', (Shell.Repl.start session).interact desk output lines = ((last, output'), none)
      ∧ last.Leaves stack (session.run ("\n".intercalate lines) [] name verbosity) := by
  have hstray := stray_eq_none_of_parse hparse
  obtain ⟨hplain, hwords⟩ := intercalate_plain hclosed hstray
  have hread := wellRead_of_parse hparse
  have hreads := ((parse_ok_iff hstray).mp hparse).unplaced
  rw [← bareWords, hwords] at hreads
  have hgenuine : ∀ x ∈ lines.flatMap bareWords, x.Genuine := by
    intro x hx
    rw [← hwords] at hx
    obtain ⟨y, hy, rfl⟩ := List.mem_map.mp hx
    have hgenuine : y.Genuine := genuine_of_mem_scan hy
    exact hgenuine
  have hlike : (session.perform none (clauses.map Clause.unplaced) [] 0).Like
      (session.perform name clauses [] verbosity) :=
    Session.perform_like (.refl session) (unplaced_unplaced clauses) (hreads.wellRead hgenuine)
      hread [] 0 verbosity
  rw [session.run_eq_perform hparse] at hrun ⊢
  have hstart : ((Shell.Repl.start session).session.perform none (clauses.map Clause.unplaced)
      (Shell.Repl.start session).stack 0).result = .ok stack := hlike.of_ok hrun
  have hamid : (Shell.Repl.start session).Amid [] (lines.flatMap bareWords)
      (clauses.map Clause.unplaced) stack :=
    ⟨rfl, .nothing, Or.inl rfl, hreads, hgenuine, horder.unplaced, hstart⟩
  obtain ⟨last, output', hinteract, hleaves⟩ := hamid.interact output hexit hplain
  exact ⟨last, output', hinteract, hleaves.failed, hleaves.waiting, hleaves.stack,
    hleaves.session.trans hlike.session⟩

/-- A definition and a block that go on below a line end, and a line of blanks in between. -/
theorem interact_eq_run_typed :
    ∃ last output', (Shell.Repl.start (.fresh .default)).interact
        ⟨⟨[]⟩, .default, 0, fun _ => ""⟩ .none ["( f sto", "x )", "", "'a 'b f [", "] map"]
        = ((last, output'), none)
      ∧ last.Leaves [.text "a"]
        ((Session.fresh .default).run
          ("\n".intercalate ["( f sto", "x )", "", "'a 'b f [", "] map"]) [] none 0) := by
  have hwords : scan ("\n".intercalate ["( f sto", "x )", "", "'a 'b f [", "] map"])
      = ⟨[⟨.definitionStart, "(", 1, 1⟩, ⟨.word, "f", 1, 3⟩, ⟨.store, "sto", 1, 5⟩,
          ⟨.word, "x", 2, 1⟩, ⟨.definitionEnd, ")", 2, 3⟩, ⟨.symbol, "'a", 4, 1⟩,
          ⟨.symbol, "'b", 4, 4⟩, ⟨.word, "f", 4, 7⟩, ⟨.blockOpen, "[", 4, 9⟩,
          ⟨.blockClose, "]", 5, 1⟩, ⟨.combinator, "map", 5, 3⟩], none⟩ := by
    decide +kernel
  have hparse : parse ("\n".intercalate ["( f sto", "x )", "", "'a 'b f [", "] map"]) none
      = .ok ([.definition ⟨.word, "f", 1, 3⟩ [⟨.store, "sto", 1, 5⟩, ⟨.word, "x", 2, 1⟩]]
        ++ [.term [⟨.symbol, "'a", 4, 1⟩], .term [⟨.symbol, "'b", 4, 4⟩],
          .term [⟨.word, "f", 4, 7⟩],
          .term [⟨.blockOpen, "[", 4, 9⟩, ⟨.blockClose, "]", 5, 1⟩,
            ⟨.combinator, "map", 5, 3⟩]]) := by
    simp only [parse, hwords]
    rfl
  have hresult : ((Session.fresh .default).run
      ("\n".intercalate ["( f sto", "x )", "", "'a 'b f [", "] map"]) [] none 0).result
        = .ok [.text "a"] := by
    rw [(Session.fresh .default).run_eq_perform hparse]
    show (run _ depthLimit _ _ _).1 = _
    rw [run_result]
    decide +kernel
  refine interact_eq_run (.fresh .default) _ _ _ none 0 _ (by decide +kernel) (by decide +kernel)
    hparse ⟨_, _, rfl, ?_, ?_⟩ hresult
  · simp [Clause.isDefinition]
  · simp [Clause.isDefinition]

end StackCalc
