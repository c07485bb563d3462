/-
  StackCalc.Token.Lexer

  From text to lexemes.  A word is a maximal run of characters that are not blank,
  and its kind depends on the run alone.  A comment goes from a run that is just
  `<` to the next run that is just `>`, or to the end of the text.  Outside
  comments only skippable blanks may stand between words: reading stops in front
  of any other blank, and the words before it are kept, since a reader further on
  may find an earlier fault in them.
-/

import StackCalc.Double.Numeral
import StackCalc.Text.Quoted
import StackCalc.Token

namespace StackCalc

open StackCalc.Text

/-! ## Kinds -/

/-- The words with a meaning of their own. -/
def keywordKind? (s : String) : Option Kind :=
  match s with
  | "(" => some .definitionStart
  | ")" => some .definitionEnd
  | "[" => some .blockOpen
  | "]" => some .blockClose
  | "map" | "fold" | "scan" => some .combinator
  | "ifeq" | "ifne" | "ifgt" | "iflt" => some .test
  | "else" => some .alternative
  | "fi" => some .testEnd
  | "sto" => some .store
  | "rcl" => some .fetch
  | _ => none

/-- The kind of a run of characters: a keyword, a numeral, a quote followed by at
    least one more character, or any other word. -/
def kindOf (run : List Char) : Kind :=
  match keywordKind? (String.ofList run) with
  | some kind => kind
  | none =>
    if Double.isNumeral run then .number
    else match run with
      | first :: _ :: _ => if first = singleQuote then .symbol else .word
      | _ => .word

/-! ## Positions -/

/-- A line and a column, counted from one. -/
structure Position where
  line : Nat
  column : Nat
deriving DecidableEq, Repr

/-- The start of a text. -/
def Position.start : Position := ⟨1, 1⟩

/-- The position behind a character; only a line feed starts a new line. -/
def Position.after (p : Position) (c : Char) : Position :=
  if c = '\n' then ⟨p.line + 1, 1⟩ else ⟨p.line, p.column + 1⟩

/-- The position behind a text. -/
def Position.afterAll (p : Position) (s : List Char) : Position :=
  s.foldl Position.after p

theorem Position.afterAll_append (p : Position) (s t : List Char) :
    p.afterAll (s ++ t) = (p.afterAll s).afterAll t :=
  List.foldl_append

/-! ## Reading -/

/-- A blank that must not stand between words, and where it stands. -/
structure Stray where
  char : Char
  position : Position
deriving DecidableEq, Repr

/-- The words of a text up to the first stray blank, and that blank. -/
structure Scan where
  lexemes : List Lexeme
  stray : Option Stray
deriving DecidableEq, Repr

/-- The characters that make up a run. -/
def isInk (c : Char) : Bool := !isBlank c

/-- What follows the comment that a text is inside of, and its position: the text
    is cut behind the first run that is just `>`.  `fresh` says whether a run can
    start here. -/
def skipComment (fresh : Bool) (p : Position) : List Char → Position × List Char
  | [] => (p, [])
  | c :: rest =>
    if fresh && c = '>' && rest.head?.all isBlank then (p.after c, rest)
    else skipComment (isBlank c) (p.after c) rest

theorem skipComment_length (fresh : Bool) (p : Position) (s : List Char) :
    (skipComment fresh p s).2.length ≤ s.length := by
  induction s generalizing fresh p with
  | nil => simp [skipComment]
  | cons c rest ih =>
    rw [skipComment]
    split
    · simp
    · exact Nat.le_succ_of_le (ih ..)

/-- The words of a text that starts at a position where a run can start. -/
def scanFrom (p : Position) (s : List Char) : Scan :=
  match s with
  | [] => ⟨[], none⟩
  | c :: rest =>
    if isSkippable c then scanFrom (p.after c) rest
    else if isBlank c then ⟨[], some ⟨c, p⟩⟩
    else
      let run := c :: rest.takeWhile isInk
      let tail := rest.dropWhile isInk
      if run = ['<'] then
        let left := skipComment false (p.after c) tail
        scanFrom left.1 left.2
      else
        let more := scanFrom (p.afterAll run) tail
        { more with lexemes := ⟨kindOf run, String.ofList run, p.line, p.column⟩ :: more.lexemes }
termination_by s.length
decreasing_by
  · simp
  · have := skipComment_length false (p.after c) (rest.dropWhile isInk)
    have := (List.dropWhile_suffix (l := rest) isInk).length_le
    simp only [List.length_cons]
    omega
  · have := (List.dropWhile_suffix (l := rest) isInk).length_le
    simp only [List.length_cons]
    omega

/-- The words of a text. -/
def scan (source : String) : Scan :=
  scanFrom .start source.toList

end StackCalc
