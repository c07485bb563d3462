/-
  StackCalc.Proofs.ErrorContext

  The context of a fault shows the word to blame.  A word that is refused stands in a line of
  the text, and the row of this line, with the word and nothing else in colour, belongs to the
  context exactly if the lines that the context is made of have the same line at this number
  (`wordRow_mem_contextRows_iff`).  The lines of a file do (`getElem?_fileLines`); the lines of
  typed text break at more characters than line feeds, and a text with one of them above the
  fault has another line there (`typedContext_loses_word`).
-/

import StackCalc.Display
import StackCalc.Proofs.Positions
import StackCalc.Proofs.Recognition

namespace StackCalc

open StackCalc.Text

/-! ## Lines of files and of typed text -/

namespace Text

variable {line s : List Char}

theorem stripNewlines_feed (line : List Char) :
    stripNewlines (line ++ ['\n']) = stripNewlines line := by
  rw [stripNewlines, List.reverse_append]
  rfl

theorem stripNewlines_eq_self (h : '\n' ∉ line) : stripNewlines line = line := by
  have hends : ∀ c ∈ line.reverse, ¬decide (c = '\n') = true := by
    intro c hc hfeed
    rw [decide_eq_true_eq] at hfeed
    rw [hfeed, List.mem_reverse] at hc
    exact h hc
  have hdrop : line.reverse.dropWhile (· = '\n') = line.reverse := by
    cases hline : line.reverse with
    | nil => rfl
    | cons c rest =>
      rw [hline] at hends
      exact List.dropWhile_cons_of_neg (hends c (List.mem_cons_self ..))
  rw [stripNewlines, hdrop, List.reverse_reverse]

/-- Without their ends the lines of a file are the lines of the text, but for an empty one at
    the end. -/
theorem exists_linesWith {line : List Char} (hline : '\n' ∉ line) (s : List Char) :
    ∃ rest, sourceLines (line.reverse ++ s)
        = (linesWith (· = '\n') line s).map stripNewlines ++ rest
      ∧ ∀ other ∈ rest, other = [] := by
  have hreverse : '\n' ∉ line.reverse := fun h => hline (List.mem_reverse.mp h)
  induction s generalizing line with
  | nil =>
    have hlast : sourceLines (line.reverse ++ []) = [line.reverse] := by
      rw [List.append_nil]
      exact List.splitOn_eq_singleton hreverse
    rw [hlast, linesWith]
    split
    · rename_i hempty
      rw [List.isEmpty_iff.mp hempty]
      exact ⟨[[]], rfl, fun _ => List.mem_singleton.mp⟩
    · refine ⟨[], ?_, nofun⟩
      rw [List.map_singleton, stripNewlines_eq_self hreverse]
      rfl
  | cons c s ih =>
    rw [linesWith]
    split
    · rename_i hc
      obtain rfl := of_decide_eq_true hc
      have hnil : '\n' ∉ ([] : List Char) := List.not_mem_nil
      obtain ⟨rest, hrest, hempty⟩ := ih hnil hnil
      refine ⟨rest, ?_, hempty⟩
      have hlast : sourceLines line.reverse = [line.reverse] :=
        List.splitOn_eq_singleton hreverse
      rw [List.reverse_nil, List.nil_append] at hrest
      rw [sourceLines_append, hlast, hrest, List.map_cons, List.reverse_cons,
        stripNewlines_feed, stripNewlines_eq_self hreverse]
      rfl
    · rename_i hc
      have hline' : '\n' ∉ c :: line := by
        intro h
        rcases List.mem_cons.mp h with rfl | h
        · exact hc (decide_eq_true rfl)
        · exact hline h
      obtain ⟨rest, hrest, hempty⟩ :=
        ih hline' fun h => hline' (List.mem_reverse.mp h)
      refine ⟨rest, ?_, hempty⟩
      rw [← hrest, List.reverse_cons, List.append_assoc]
      rfl

/-- A line of a text that is not empty is the line of the file with the same number. -/
theorem getElem?_fileLines {above below : List (List Char)} (hne : line ≠ [])
    (h : sourceLines s = above ++ line :: below) :
    (fileLines s)[above.length]?.map stripNewlines = some line := by
  have hnil : '\n' ∉ ([] : List Char) := List.not_mem_nil
  obtain ⟨rest, hlines, hempty⟩ := exists_linesWith hnil s
  rw [List.reverse_nil, List.nil_append, h] at hlines
  have hnumber : (above ++ line :: below)[above.length]? = some line := by
    rw [List.getElem?_append_right (Nat.le_refl _), Nat.sub_self]
    rfl
  rw [hlines] at hnumber
  rw [← List.getElem?_map]
  rcases Nat.lt_or_ge above.length ((linesWith (· = '\n') [] s).map stripNewlines).length
    with hlt | hge
  · rw [List.getElem?_append_left hlt] at hnumber
    exact hnumber
  · rw [List.getElem?_append_right hge] at hnumber
    exact absurd (hempty line (List.mem_of_getElem? hnumber)) hne

/-- Whether all lines of a text end in line feeds, where a carriage return may stand in front of
    the line feed. -/
def breaksAtFeeds : List Char → Bool
  | [] => true
  | '\r' :: rest => rest.head? = some '\n' && breaksAtFeeds rest
  | c :: rest => (!isLineBreak c || c = '\n') && breaksAtFeeds rest

theorem breaksAtFeeds_cons {c : Char} (hc : c ≠ '\r') (s : List Char) :
    breaksAtFeeds (c :: s) = ((!isLineBreak c || c = '\n') && breaksAtFeeds s) := by
  rw [breaksAtFeeds]
  exact hc

/-- Typed text with no other line ends has the lines of a file. -/
theorem typedLines_eq_linesWith (h : breaksAtFeeds s = true) (line : List Char) :
    typedLines line s = linesWith (· = '\n') line s := by
  fun_induction typedLines line s with
  | case1 line hempty => rw [linesWith, if_pos hempty]
  | case2 line hempty => rw [linesWith, if_neg hempty]
  | case3 line rest ih =>
    have hrest : breaksAtFeeds rest = true := by
      simpa [breaksAtFeeds, isLineBreak] using h
    rw [ih hrest]
    rfl
  | case4 line c rest hreturn hbreak ih =>
    by_cases hc : c = '\r'
    · -- The carriage return stands in front of a line feed, which the case before is about.
      subst hc
      simp only [breaksAtFeeds, Bool.and_eq_true, decide_eq_true_eq] at h
      obtain ⟨tail, rfl⟩ := List.head?_eq_some_iff.mp h.1
      exact absurd rfl (hreturn tail rfl)
    · rw [breaksAtFeeds_cons hc, Bool.and_eq_true, Bool.or_eq_true, decide_eq_true_eq] at h
      rw [decide_eq_false hc, Bool.or_false] at hbreak
      rw [hbreak, Bool.not_true] at h
      obtain rfl : c = '\n' := h.1.resolve_left nofun
      rw [linesWith, if_pos (decide_eq_true rfl), ih h.2]
  | case5 line c rest hreturn hbreak ih =>
    rw [Bool.or_eq_true, not_or, decide_eq_true_eq] at hbreak
    have hfeed : ¬decide (c = '\n') = true := by
      intro hc
      rw [of_decide_eq_true hc] at hbreak
      exact hbreak.1 rfl
    rw [breaksAtFeeds_cons hbreak.2, Bool.and_eq_true] at h
    rw [linesWith, if_neg hfeed, ih h.2]

end Text

/-! ## Rows -/

variable {before after line : List Char} {word : String} {lines : List (List Char)}

/-- A line in which a word stands out in colour, and nothing else. -/
def withWordMarked (before : List Char) (word : String) (after : List Char) : String :=
  String.ofList before ++ Colour.code "48;5;30" ++ Colour.code "1;97" ++ word ++ Colour.reset
    ++ String.ofList after

/-- The row of a line with its number, counted from one, in which a word stands out. -/
def wordRow (number : Nat) (before : List Char) (word : String) (after : List Char) : String :=
  Colour.code "97" ++ alignRight 5 (toString number) ++ " |" ++ Colour.reset ++ " "
    ++ withWordMarked before word after

/-- A column inside of a line marks as many characters as the word has. -/
theorem highlight_inside {start : Nat} (h : start < line.length) (word : String) :
    highlight (some ((start + 1 : Nat) : Int)) word line
      = withWordMarked (line.take start) (String.ofList ((line.drop start).take word.length))
          ((line.drop start).drop word.length) :=
  if_pos h

theorem highlight_outside {start : Nat} (h : ¬start < line.length) (word : String) :
    highlight (some ((start + 1 : Nat) : Int)) word line = String.ofList line :=
  if_neg h

/-- What is marked determines the line, if no more than a word is marked. -/
theorem withWordMarked_inj {before' after' : List Char} {word' : String}
    (hbefore : before.length = before'.length) (hword : word.length ≤ word'.length)
    (hafter : word.length < word'.length → after = [])
    (h : withWordMarked before word after = withWordMarked before' word' after') :
    before = before' ∧ word = word' ∧ after = after' := by
  have hlists := congrArg String.toList h
  simp only [withWordMarked, String.toList_append, String.toList_ofList, List.append_assoc]
    at hlists
  obtain ⟨rfl, hrest⟩ := List.append_inj hlists hbefore
  have hmarked := List.append_cancel_left (List.append_cancel_left hrest)
  have hsame : word.toList.length = word'.toList.length := by
    rw [String.length_toList, String.length_toList]
    rcases Nat.lt_or_ge word.length word'.length with hlt | hge
    · -- Then nothing follows, and the one text is too short to be the other.
      have hlength := congrArg List.length hmarked
      rw [hafter hlt] at hlength
      simp only [List.length_append, String.length_toList, List.length_nil] at hlength
      omega
    · omega
  obtain ⟨htext, hend⟩ := List.append_inj hmarked hsame
  exact ⟨rfl, String.toList_inj.mp htext, List.append_cancel_left hend⟩

/-- A line shows a word at a column, and nothing else, in colour exactly if the word stands
    there. -/
theorem highlight_eq_iff (hword : word ≠ "") :
    highlight (some ((before.length + 1 : Nat) : Int)) word line
        = withWordMarked before word after
      ↔ line = before ++ word.toList ++ after := by
  constructor
  · intro h
    by_cases hin : before.length < line.length
    · rw [highlight_inside hin] at h
      have hfront : (line.take before.length).length = before.length := by
        rw [List.length_take]
        omega
      have hmiddle : (String.ofList ((line.drop before.length).take word.length)).length
          = min word.length (line.length - before.length) := by
        rw [String.length_ofList, List.length_take, List.length_drop]
      have hback (hlt : min word.length (line.length - before.length) < word.length) :
          (line.drop before.length).drop word.length = [] := by
        refine List.drop_eq_nil_of_le ?_
        rw [List.length_drop]
        omega
      rw [← hmiddle] at hback
      obtain ⟨htake, hcut, hdrop⟩ := withWordMarked_inj hfront (by omega) hback h
      calc line = line.take before.length ++ line.drop before.length :=
            (List.take_append_drop ..).symm
        _ = line.take before.length ++ ((line.drop before.length).take word.length
              ++ (line.drop before.length).drop word.length) := by
            rw [List.take_append_drop word.length]
        _ = before ++ (word.toList ++ after) := by
            rw [htake, hdrop, ← congrArg String.toList hcut, String.toList_ofList]
        _ = before ++ word.toList ++ after := (List.append_assoc ..).symm
    · -- A line that ends in front of the column is shorter than anything with a mark in it.
      rw [highlight_outside hin] at h
      have hcode : (Colour.code "48;5;30").toList.length = 10 := by decide
      have hlength := congrArg (fun text => text.toList.length) h
      simp only [withWordMarked, String.toList_append, String.toList_ofList,
        List.length_append, hcode] at hlength
      omega
  · rintro rfl
    have hpositive : 0 < word.toList.length :=
      List.length_pos_iff.mpr fun hnil => hword (String.toList_eq_nil_iff.mp hnil)
    have hin : before.length < (before ++ word.toList ++ after).length := by
      rw [List.length_append, List.length_append]
      omega
    rw [highlight_inside hin, List.append_assoc, List.take_left, List.drop_left,
      ← String.length_toList, List.take_left, List.drop_left, String.ofList_toList]

/-! ## Contexts -/

/-- The rows of the context of a line with its number, counted from one. -/
def contextRows (number : Nat) (column : Option Int) (word : String) (lines : List (List Char)) :
    List String :=
  (lines.mapIdx fun i text =>
    if number ≤ i + 3 && i < number + 2 then
      [contextRow (i + 1) (i + 1 = number) column word (stripNewlines text)]
    else []).flatten

/-- A text has a row on lines of its own. -/
def Shows (context row : String) : Prop :=
  ("\n" ++ row ++ "\n").toList <:+: context.toList

theorem shows_intercalate {row : String} {rows : List String} (h : row ∈ rows) :
    Shows ("\n" ++ "\n".intercalate rows ++ "\n") row := by
  induction rows with
  | nil => cases h
  | cons first rows ih =>
    cases rows with
    | nil =>
      obtain rfl := List.mem_singleton.mp h
      rw [String.intercalate_singleton]
      exact List.infix_refl _
    | cons second rows =>
      rw [String.intercalate_cons_cons]
      rcases List.mem_cons.mp h with rfl | h
      · refine ⟨[], ("\n".intercalate (second :: rows) ++ "\n").toList, ?_⟩
        simp only [String.toList_append, List.append_assoc, List.nil_append]
      · refine (ih h).trans ⟨("\n" ++ first).toList, [], ?_⟩
        simp only [String.toList_append, List.append_assoc, List.append_nil]

/-- A context shows its rows. -/
theorem shows_of_mem {name row : String} {number : Nat} {column : Option Int}
    (h : row ∈ contextRows (number + 1) column word lines) :
    Shows (sourceContext name (some ((number + 1 : Nat) : Int)) column word lines) row :=
  shows_intercalate (List.mem_cons_of_mem _ h)

/-- A row that is not marked has another colour than one in which a word stands out. -/
theorem contextRow_ne_wordRow {number number' : Nat} {column : Option Int} {word' : String} :
    contextRow number false column word line ≠ wordRow number' before word' after := by
  intro h
  have hlists := congrArg String.toList h
  simp only [contextRow, wordRow, String.toList_append, List.append_assoc] at hlists
  have hcodes : (Colour.code "90").toList = (Colour.code "97").toList :=
    List.append_inj_left hlists (by decide)
  exact absurd hcodes (by decide)

theorem contextRow_eq_wordRow_iff (hword : word ≠ "") {number : Nat} :
    contextRow number true (some ((before.length + 1 : Nat) : Int)) word line
        = wordRow number before word after
      ↔ line = before ++ word.toList ++ after := by
  rw [← highlight_eq_iff hword]
  exact String.append_right_inj _

/-- The row in which just the word stands out belongs to the context exactly if the word stands
    in the line with this number. -/
theorem wordRow_mem_contextRows_iff (hword : word ≠ "") {number : Nat} :
    wordRow (number + 1) before word after
        ∈ contextRows (number + 1) (some ((before.length + 1 : Nat) : Int)) word lines
      ↔ lines[number]?.map stripNewlines = some (before ++ word.toList ++ after) := by
  rw [contextRows, List.mem_flatten]
  constructor
  · rintro ⟨rows, hrows, hrow⟩
    obtain ⟨i, hi, rfl⟩ := List.mem_mapIdx.mp hrows
    split at hrow
    · have heq := List.mem_singleton.mp hrow
      by_cases hnumber : i + 1 = number + 1
      · obtain rfl := Nat.succ.inj hnumber
        rw [decide_eq_true rfl, eq_comm, contextRow_eq_wordRow_iff hword] at heq
        rw [List.getElem?_eq_getElem hi, Option.map_some, heq]
      · rw [decide_eq_false hnumber] at heq
        exact absurd heq.symm contextRow_ne_wordRow
    · cases hrow
  · intro h
    obtain ⟨text, htext, hline⟩ := Option.map_eq_some_iff.mp h
    obtain ⟨hnumber, rfl⟩ := List.getElem?_eq_some_iff.mp htext
    refine ⟨_, List.mem_mapIdx.mpr ⟨number, hnumber, rfl⟩, ?_⟩
    have hnear : (number + 1 ≤ number + 3 && number < number + 1 + 2) = true := by
      simp only [Bool.and_eq_true, decide_eq_true_eq]
      omega
    rw [if_pos hnear, decide_eq_true rfl, List.mem_singleton, eq_comm,
      contextRow_eq_wordRow_iff hword]
    exact hline

/-! ## Faults -/

/-- A fault of a word is that the word was refused, and it is known where the word stands. -/
theorem standsIn_of_parse_error {source : String} {origin : Option String} {fault : SourceError}
    (h : parse source origin = .error fault) (htoken : fault.token ≠ "") :
    ∃ x : Lexeme, x.StandsIn source ∧ fault.token = x.text
      ∧ fault.line = some (x.line : Int) ∧ fault.column = some (x.column : Int) := by
  simp only [parse] at h
  split at h
  · rename_i refused hrun
    obtain rfl := Except.error.inj h
    obtain ⟨front, back, reader, hlexemes, -⟩ := Clause.Reader.run_error hrun
    have hmem : refused.lexeme ∈ (scan source).lexemes := by
      rw [hlexemes]
      exact List.mem_append_right _ (List.mem_cons_self ..)
    exact ⟨refused.lexeme, standsIn_of_mem_scan hmem, rfl, rfl, rfl⟩
  · split at h
    · obtain rfl := Except.error.inj h
      exact absurd rfl htoken
    · split at h
      · cases h
      · obtain rfl := Except.error.inj h
        exact absurd rfl htoken

/-- The line of typed text with a number, counted from zero, as a context shows it. -/
def typedLine? (source : String) (number : Nat) : Option (List Char) :=
  (typedLines [] source.toList)[number]?.map stripNewlines

/-- The context of a fault of a word.  The word stands in a line of the text at the column of
    the fault, and the context in the file of the text shows the row of this line in which the
    word and nothing else stands out.  The context in typed text does so if the line with this
    number is the same there, which is so if only line feeds end its lines; if it is not the
    same, none of the rows is this one. -/
theorem fault_context_shows_word (source : String) (origin : Option String) (name : String)
    (fault : SourceError) (h : parse source origin = .error fault) (htoken : fault.token ≠ "") :
    ∃ above before after below,
      sourceLines source.toList = above ++ (before ++ fault.token.toList ++ after) :: below ∧
      fault.line = some ((above.length + 1 : Nat) : Int) ∧
      fault.column = some ((before.length + 1 : Nat) : Int) ∧
      Shows (fileContext name fault.line fault.column fault.token source)
        (wordRow (above.length + 1) before fault.token after) ∧
      (typedLine? source above.length = some (before ++ fault.token.toList ++ after) →
        Shows (typedContext name fault.line fault.column fault.token source)
          (wordRow (above.length + 1) before fault.token after)) ∧
      (typedLine? source above.length ≠ some (before ++ fault.token.toList ++ after) →
        wordRow (above.length + 1) before fault.token after
          ∉ contextRows (above.length + 1) fault.column fault.token
            (typedLines [] source.toList)) ∧
      (breaksAtFeeds source.toList = true →
        typedLine? source above.length = some (before ++ fault.token.toList ++ after)) := by
  obtain ⟨x, ⟨above, before, after, below, hlines, hx, hx'⟩, htext, hline, hcolumn⟩ :=
    standsIn_of_parse_error h htoken
  rw [← htext] at hlines
  rw [hx] at hline
  rw [hx'] at hcolumn
  have hne : before ++ fault.token.toList ++ after ≠ [] := by
    intro hnil
    obtain ⟨hfront, -⟩ := List.append_eq_nil_iff.mp hnil
    exact htoken (String.toList_eq_nil_iff.mp (List.append_eq_nil_iff.mp hfront).2)
  have hfile := getElem?_fileLines hne hlines
  refine ⟨above, before, after, below, hlines, hline, hcolumn, ?_, ?_, ?_, ?_⟩
  · rw [hline, hcolumn]
    exact shows_of_mem ((wordRow_mem_contextRows_iff htoken).mpr hfile)
  · intro hsame
    rw [hline, hcolumn]
    exact shows_of_mem ((wordRow_mem_contextRows_iff htoken).mpr hsame)
  · intro hother hmem
    rw [hcolumn] at hmem
    exact hother ((wordRow_mem_contextRows_iff htoken).mp hmem)
  · intro hfeeds
    rw [typedLine?, typedLines_eq_linesWith hfeeds]
    exact hfile

/-- In a text whose lines end in line feeds, one of them behind a carriage return, the row of
    the word that is refused is shown, be it a file or typed. -/
theorem fault_context_shows_word_crlf :
    ∃ fault, parse "1 < one\r\n> ( f ] )" none = .error fault ∧ fault.token = "]" ∧
      ∃ above before after below,
        sourceLines "1 < one\r\n> ( f ] )".toList
          = above ++ (before ++ "]".toList ++ after) :: below ∧
        above.length = 1 ∧ before.length = 6 ∧
        Shows (fileContext "t" fault.line fault.column fault.token "1 < one\r\n> ( f ] )")
          (wordRow 2 before "]" after) ∧
        Shows (typedContext "t" fault.line fault.column fault.token "1 < one\r\n> ( f ] )")
          (wordRow 2 before "]" after) := by
  have hwords : scan "1 < one\r\n> ( f ] )"
      = ⟨[⟨.number, "1", 1, 1⟩, ⟨.definitionStart, "(", 2, 3⟩, ⟨.word, "f", 2, 5⟩,
          ⟨.blockClose, "]", 2, 7⟩, ⟨.definitionEnd, ")", 2, 9⟩], none⟩ := by decide +kernel
  have hparse : parse "1 < one\r\n> ( f ] )" none
      = .error ⟨.unmatched "]" "[", "]", none, some 2, some 7⟩ := by
    simp only [parse, hwords]
    rfl
  obtain ⟨above, before, after, below, hlines, hline, hcolumn, hfile, htyped, -, hfeeds⟩ :=
    fault_context_shows_word _ none "t" _ hparse (by decide)
  have habove : above.length = 1 := by
    have := Option.some.inj hline
    omega
  have hbefore : before.length = 6 := by
    have := Option.some.inj hcolumn
    omega
  rw [habove] at hfile htyped hfeeds
  exact ⟨_, hparse, rfl, above, before, after, below, hlines, habove, hbefore, hfile,
    htyped (hfeeds (by decide))⟩

/-- A form feed ends a line of typed text, but not of the text that is read: the context has
    another line at the number of the fault, and no word stands out in it. -/
theorem typedContext_loses_word :
    ∃ fault, parse "\x0c\n]" none = .error fault ∧ fault.token = "]" ∧ fault.line = some 2 ∧
      fault.column = some 1 ∧ sourceLines "\x0c\n]".toList = [['\x0c'], [']']] ∧
      ¬Shows (typedContext "t" fault.line fault.column fault.token "\x0c\n]")
        (wordRow 2 [] "]" []) := by
  have hwords : scan "\x0c\n]" = ⟨[⟨.blockClose, "]", 2, 1⟩], none⟩ := by decide +kernel
  have hparse : parse "\x0c\n]" none
      = .error ⟨.unmatched "]" "[", "]", none, some 2, some 1⟩ := by
    simp only [parse, hwords]
    rfl
  refine ⟨_, hparse, rfl, rfl, rfl, by decide, ?_⟩
  unfold Shows
  decide +kernel

end StackCalc
