/-
  StackCalc.Proofs.Completion

  Texts that wait for more.  Everything that is open at the end of a text can be closed by
  words, one to a line, behind the bracket that closes a comment (`exists_completion`), so a
  text that is reported as incomplete can be completed exactly if it has no stray blank
  (`parse_incomplete_completes_iff`): no text mends a blank that must not stand where it
  stands.
-/

import StackCalc.Proofs.Recognition
import StackCalc.Proofs.Scanning

namespace StackCalc

open Clause Grammar

/-! ## Closing words -/

/-- The kinds of words that close something or meet what is awaited. -/
def Kind.closers : List Kind :=
  [.definitionEnd, .blockClose, .combinator, .testEnd, .word]

/-- A word of each of these kinds. -/
def Kind.closer : Kind → String
  | .definitionEnd => ")"
  | .blockClose => "]"
  | .combinator => "map"
  | .testEnd => "fi"
  | _ => "x"

/-- Words of some kinds, one to a line. -/
def closingText : List Kind → String
  | [] => ""
  | kind :: rest => kind.closer ++ "\n" ++ closingText rest

theorem Kind.scan_closer : ∀ kind ∈ closers,
    endsInComment kind.closer = false ∧ scan kind.closer = ⟨[⟨kind, kind.closer, 1, 1⟩], none⟩ := by
  decide +kernel

theorem closing_subset (reader : Reader) : reader.closing ⊆ Kind.closers := by
  obtain ⟨division, opens, awaited, words, clauses⟩ := reader
  have hdivision : division.closing ⊆ Kind.closers := by
    cases division <;> simp [Section.closing, Kind.closers]
  have hawaited : awaited.closing ⊆ Kind.closers := by
    cases awaited <;> decide
  have hopens : opens.flatMap Construct.closing ⊆ Kind.closers := by
    intro kind hkind
    obtain ⟨construct, _, hmem⟩ := List.mem_flatMap.mp hkind
    have hconstruct : construct.closing ⊆ Kind.closers := by
      cases construct <;> decide
    exact hconstruct hmem
  exact List.append_subset.mpr ⟨hawaited, List.append_subset.mpr ⟨hopens, hdivision⟩⟩

/-- The closing words are read as words of their kinds. -/
theorem scan_closingText {kinds : List Kind} (h : kinds ⊆ Kind.closers) :
    (scan (closingText kinds)).stray = none
      ∧ (bareWords (closingText kinds)).map Lexeme.kind = kinds := by
  induction kinds with
  | nil => exact ⟨by decide +kernel, by decide +kernel⟩
  | cons kind rest ih =>
    obtain ⟨hkind, hrest⟩ := List.cons_subset.mp h
    obtain ⟨hclosed, hscan⟩ := Kind.scan_closer kind hkind
    obtain ⟨hstray, hwords⟩ := ih hrest
    have hfirst : (scan kind.closer).stray = none := by rw [hscan]
    refine ⟨(stray_line hclosed).mpr ⟨hfirst, hstray⟩, ?_⟩
    rw [closingText, bareWords_line hclosed hfirst, List.map_append, hwords, bareWords, hscan]
    rfl

/-! ## Completions -/

variable {source : String} {name : Option String} {clauses : List Clause} {fault : SourceError}

/-- A stray blank is found in front of everything that is added behind it. -/
theorem stray_of_line {first second : String} (h : (scan (first ++ "\n" ++ second)).stray = none) :
    (scan first).stray = none := by
  rw [scan_line, Scan.andThen] at h
  split at h
  · exact h
  · assumption

/-- A comment that is still open can be closed on a line of its own, which adds no word. -/
theorem exists_closed (source : String) (hstray : (scan source).stray = none) :
    ∃ closed tail, (∀ t, closed ++ "\n" ++ t = source ++ "\n" ++ (tail ++ t))
      ∧ endsInComment closed = false ∧ (scan closed).stray = none
      ∧ (scan closed).lexemes = (scan source).lexemes := by
  cases hcomment : endsInComment source with
  | false => exact ⟨source, "", fun t => by rw [String.empty_append], hcomment, hstray, rfl⟩
  | true =>
    have hscan : scan (source ++ "\n" ++ ">") = ⟨(scan source).lexemes, none⟩ := by
      rw [scan_line, hcomment, Scan.andThen, hstray]
      have hbracket : IsRun ['>'] := by simp only [IsRun, List.forall_mem_singleton]; decide
      dsimp only
      rw [show ">".toList = ['>'] from rfl, scanWithin_run hbracket]
      simp [wordAt]
    refine ⟨source ++ "\n" ++ ">", ">\n", fun t => ?_, ?_, ?_, ?_⟩
    · simp only [String.append_assoc]
      rfl
    · rw [endsInComment_line, hcomment]
      decide
    · rw [hscan]
    · rw [hscan]

/-- What was read of a text without stray blanks can be completed. -/
theorem exists_completion {reader : Reader} (hstray : (scan source).stray = none)
    (hrun : Reader.start.run (scan source).lexemes = .ok reader) :
    ∃ t clauses, parse (source ++ "\n" ++ t) name = .ok clauses := by
  -- The comment has to be closed first, or the closing words would be read as a part of it.
  obtain ⟨closed, tail, happend, hclosed, hstray', hlexemes⟩ := exists_closed source hstray
  obtain ⟨hclosing, hkinds⟩ := scan_closingText (closing_subset reader)
  have hjoint := (stray_line hclosed).mpr ⟨hstray', hclosing⟩
  have hwords : (scan (closed ++ "\n" ++ closingText reader.closing)).lexemes.map Lexeme.kind
      = (scan source).lexemes.map Lexeme.kind ++ reader.closing := by
    rw [← kinds_bareWords, bareWords_line hclosed hstray', List.map_append, hkinds,
      kinds_bareWords, hlexemes]
  have htext : IsText Lexeme.kind
      (scan (closed ++ "\n" ++ closingText reader.closing)).lexemes := by
    rw [← isText_map_iff, hwords]
    exact Reader.isText_closing hrun
  refine ⟨tail ++ closingText reader.closing, ?_⟩
  rw [← happend]
  exact (exists_parse_iff hjoint).mpr htext

/-- A text that is reported as incomplete can be completed below its last line, unless a blank
    stands in it that must not stand there: nothing that is added mends that. -/
theorem parse_incomplete_completes_iff (source : String) (name : Option String)
    (fault : SourceError) (hparse : parse source name = .error fault)
    (hincomplete : (Cause.source fault).category = .incomplete) :
    (∃ t clauses, parse (source ++ "\n" ++ t) name = .ok clauses)
      ↔ (scan source).stray = none := by
  constructor
  · intro ⟨t, clauses, h⟩
    exact stray_of_line (stray_eq_none_of_parse h)
  · intro hstray
    obtain ⟨_, hviable⟩ := (parse_incomplete_iff hstray).mp ⟨fault, hparse, hincomplete⟩
    obtain ⟨reader, hrun⟩ := Reader.viable_iff.mp hviable
    exact exists_completion hstray hrun

/-- A definition, a block and a comment that are open can all be closed. -/
theorem parse_incomplete_completes_open :
    ∃ t clauses, parse ("( f [ < n" ++ "\n" ++ t) none = .ok clauses := by
  have hscan : scan "( f [ < n"
      = ⟨[⟨.definitionStart, "(", 1, 1⟩, ⟨.word, "f", 1, 3⟩, ⟨.blockOpen, "[", 1, 5⟩], none⟩ := by
    decide +kernel
  have hparse : parse "( f [ < n" none = .error ⟨.unfinished, "", none, some 1, some 5⟩ := by
    simp only [parse, hscan]
    rfl
  exact (parse_incomplete_completes_iff _ none _ hparse rfl).mpr (by rw [hscan])

/-- A vertical tab is reported as incomplete, and nothing completes it. -/
theorem parse_incomplete_never_completes :
    ¬∀ (source : String) (name : Option String) (fault : SourceError),
      parse source name = .error fault → (Cause.source fault).category = .incomplete →
        ∃ t clauses, parse (source ++ "\n" ++ t) name = .ok clauses := by
  intro h
  have hscan : scan "\x0b" = ⟨[], some ⟨'\x0b', .start⟩⟩ := by decide +kernel
  have hparse : parse "\x0b" none = .error (Stray.fault none ⟨'\x0b', .start⟩) := by
    simp only [parse, hscan]
    rfl
  obtain ⟨t, clauses, hok⟩ := h _ none _ hparse rfl
  have hstray := stray_of_line (stray_eq_none_of_parse hok)
  rw [hscan] at hstray
  cases hstray

end StackCalc
