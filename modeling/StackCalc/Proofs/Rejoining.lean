/-
  StackCalc.Proofs.Rejoining

  Joining texts with spaces.  Every word of a text is read as itself when it stands alone, and it
  neither opens nor closes a comment (`bareWords_text`); a text that closes its comments is read
  in front of a space as it is by itself.  So texts that are joined with spaces have the words of
  all of them (`intercalate_words`), the words of a text can be joined again, and arguments are
  run as the text is that they are the parts of.
-/

import StackCalc.Proofs.SameWords
import StackCalc.Proofs.Splitting

namespace StackCalc

open StackCalc.Text

/-! ## Words as texts -/

/-- The words of a text up to the first stray blank. -/
def wordTexts (source : String) : List String := (scan source).lexemes.map Lexeme.text

theorem Parts.run_of_mem {s r : List Char} {parts : List Part} (h : Parts s parts)
    (hmem : .word r ∈ parts) : IsRun r ∧ r ≠ [] ∧ r ≠ ['<'] := by
  induction h with
  | done => cases hmem
  | blank _ _ ih =>
    cases hmem with
    | tail _ hmem => exact ih hmem
  | word hr hne hopens _ _ ih =>
    cases hmem with
    | head => exact ⟨hr, hne, hopens⟩
    | tail _ hmem => exact ih hmem
  | closed _ _ _ _ _ ih =>
    cases hmem with
    | tail _ hmem => exact ih hmem
  | unclosed _ _ =>
    cases hmem with
    | tail _ hmem => cases hmem

section

variable {source : String} {x : Lexeme}

/-- Every word of a text is a run that opens no comment. -/
theorem run_of_mem_scan (h : x ∈ (scan source).lexemes) :
    IsRun x.text.toList ∧ x.text.toList ≠ [] ∧ x.text.toList ≠ ['<'] := by
  obtain ⟨parts, hparts⟩ := exists_parts source.toList
  have hread := (hparts.readAs .start).words
  have hmem : x.text.toList ∈ (parts.takeWhile fun part => !part.isStray).filterMap Part.word? := by
    rw [← hread]
    exact List.mem_map_of_mem h
  obtain ⟨part, hpart, hword⟩ := List.mem_filterMap.mp hmem
  have hin : part ∈ parts := (List.takeWhile_prefix _).subset hpart
  cases part with
  | word run =>
    obtain rfl := Option.some.inj hword
    exact hparts.run_of_mem hin
  | blank c => cases hword
  | comment text => cases hword

/-- A run that opens no comment is one word, read as its kind says. -/
theorem bareWords_run {text : String} (hr : IsRun text.toList) (hne : text.toList ≠ [])
    (hopens : text.toList ≠ ['<']) :
    (scan text).stray = none ∧ bareWords text = [⟨kindOf text.toList, text, 0, 0⟩]
      ∧ endsInComment text = false := by
  have hscan : scan text = ⟨[⟨kindOf text.toList, text, 1, 1⟩], none⟩ := by
    rw [scan, scanFrom_run hr]
    simp [wordAt, hne, hopens, Position.start]
  refine ⟨by rw [hscan], by rw [bareWords, hscan]; rfl, ?_⟩
  rw [endsInComment, staysInside_run hr]
  simp [opens, hopens]

/-- Every word of a text is read as itself where it stands alone. -/
theorem bareWords_text (h : x ∈ (scan source).lexemes) :
    (scan x.text).stray = none ∧ bareWords x.text = [x.unplaced] ∧ endsInComment x.text = false := by
  obtain ⟨hr, hne, hopens⟩ := run_of_mem_scan h
  have hkind : x.kind = kindOf x.text.toList := genuine_of_mem_scan h
  obtain ⟨hstray, hwords, hcloses⟩ := bareWords_run hr hne hopens
  rw [← hkind] at hwords
  exact ⟨hstray, hwords, hcloses⟩

end

/-! ## Joined texts -/

/-- Texts that are joined with spaces have the words of all of them, if all but the last close
    their comments. -/
theorem intercalate_words {texts : List String} (hstray : ∀ text ∈ texts, (scan text).stray = none)
    (hclosed : ∀ text ∈ texts.dropLast, endsInComment text = false) :
    (scan (" ".intercalate texts)).stray = none
      ∧ bareWords (" ".intercalate texts) = texts.flatMap bareWords := by
  induction texts with
  | nil => exact ⟨by decide +kernel, by decide +kernel⟩
  | cons text rest ih =>
    obtain ⟨hfirst, hrest⟩ := List.forall_mem_cons.mp hstray
    cases rest with
    | nil =>
      rw [String.intercalate_singleton]
      exact ⟨hfirst, by simp⟩
    | cons next rest =>
      rw [List.dropLast_cons_cons, List.forall_mem_cons] at hclosed
      obtain ⟨hjoined, hwords⟩ := ih hrest hclosed.2
      rw [String.intercalate_cons_cons]
      refine ⟨(stray_joined rfl (by decide) hclosed.1).mpr ⟨hfirst, hjoined⟩, ?_⟩
      rw [bareWords_joined rfl (by decide) hclosed.1 hfirst, hwords]
      rfl

/-- Texts that are each a single word have these words when they are joined with spaces. -/
theorem intercalate_singles {texts : List String} {word : String → Lexeme}
    (h : ∀ text ∈ texts, (scan text).stray = none ∧ bareWords text = [word text]
      ∧ endsInComment text = false) :
    (scan (" ".intercalate texts)).stray = none
      ∧ bareWords (" ".intercalate texts) = texts.map word := by
  obtain ⟨hstray, hwords⟩ := intercalate_words (fun text htext => (h text htext).1)
    fun text htext => (h text ((List.dropLast_prefix _).subset htext)).2.2
  refine ⟨hstray, hwords.trans ?_⟩
  rw [List.map_eq_flatMap]
  exact List.flatMap_congr fun text htext => (h text htext).2.1

/-- The words of a text can be joined again. -/
theorem intercalate_wordTexts (source : String) :
    (scan (" ".intercalate (wordTexts source))).stray = none
      ∧ bareWords (" ".intercalate (wordTexts source)) = bareWords source := by
  have hread : ∀ text ∈ wordTexts source, (scan text).stray = none ∧ endsInComment text = false := by
    intro text htext
    obtain ⟨x, hx, rfl⟩ := List.mem_map.mp htext
    obtain ⟨hstray, -, hclosed⟩ := bareWords_text hx
    exact ⟨hstray, hclosed⟩
  obtain ⟨hstray, hwords⟩ := intercalate_words (fun text htext => (hread text htext).1)
    fun text htext => (hread text ((List.dropLast_prefix _).subset htext)).2
  refine ⟨hstray, hwords.trans ?_⟩
  rw [wordTexts, List.flatMap_map, bareWords, List.map_eq_flatMap]
  exact List.flatMap_congr fun x hx => (bareWords_text hx).2.1

/-- Words and texts can be joined with spaces.  The words of a text without stray blanks, joined
    again, are its words, and they run as the text does; a text that closes its comments and
    another text have, joined, the words of both; and arguments that have together the words of a
    program run as the program does, but for places. -/
theorem scan_rejoins :
    (∀ source : String, (scan source).stray = none →
      (scan (" ".intercalate (wordTexts source))).stray = none
        ∧ bareWords (" ".intercalate (wordTexts source)) = bareWords source
        ∧ ∀ (session : Session) stack name verbosity,
          (session.runWords (wordTexts source) stack verbosity).Same
            (session.run source stack name verbosity))
    ∧ (∀ first second : String, (scan first).stray = none → (scan second).stray = none →
        endsInComment first = false →
          (scan (first ++ " " ++ second)).stray = none
            ∧ bareWords (first ++ " " ++ second) = bareWords first ++ bareWords second)
    ∧ ∀ (program : String) (arguments : List String), (scan program).stray = none →
        (∀ argument ∈ arguments, (scan argument).stray = none) →
        (∀ argument ∈ arguments.dropLast, endsInComment argument = false) →
        arguments.flatMap bareWords = bareWords program →
          ∀ (session : Session) stack name verbosity,
            (session.runWords arguments stack verbosity).Same
              (session.run program stack name verbosity) := by
  refine ⟨?_, ?_, ?_⟩
  · intro source hstray
    obtain ⟨hjoined, hwords⟩ := intercalate_wordTexts source
    exact ⟨hjoined, hwords, fun session stack name verbosity =>
      run_same hjoined hstray hwords session stack _ name verbosity⟩
  · intro first second hfirst hsecond hclosed
    exact ⟨(stray_joined rfl (by decide) hclosed).mpr ⟨hfirst, hsecond⟩,
      bareWords_joined rfl (by decide) hclosed hfirst⟩
  · intro program arguments hprogram harguments hclosed hsplit session stack name verbosity
    obtain ⟨hjoined, hwords⟩ := intercalate_words harguments hclosed
    exact run_same hjoined hprogram (hwords.trans hsplit) session stack _ name verbosity

/-- Words around a comment, in front of a bracket that closes none, and arguments with a comment
    in each. -/
theorem scan_rejoins_comments :
    bareWords (" ".intercalate (wordTexts "1 < a > > x")) = bareWords "1 < a > > x"
      ∧ bareWords ("1 < a >" ++ " " ++ "> <") = bareWords "1 < a >" ++ bareWords "> <"
      ∧ ((Session.fresh .default).runWords ["1 < a >", "dup + < b"] [] 0).Same
        ((Session.fresh .default).run "1 dup +" [] none 0) := by
  obtain ⟨hwords, hjoined, harguments⟩ := scan_rejoins
  refine ⟨(hwords "1 < a > > x" (by decide +kernel)).2.1,
    (hjoined "1 < a >" "> <" (by decide +kernel) (by decide +kernel) (by decide +kernel)).2,
    harguments "1 dup +" ["1 < a >", "dup + < b"] (by decide +kernel) (by decide +kernel)
      (by decide +kernel) (by decide +kernel) (.fresh .default) [] none 0⟩

end StackCalc
