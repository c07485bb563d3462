/-
  StackCalc.Text.Blank

  The characters that separate the words of a program.  `isBlank` is the whole
  Unicode class of white space; `isSkippable` are the five of them that may stand
  between two words.  The rest of the class ends a word as well, but is an error
  where it stands outside a comment.
-/

namespace StackCalc
namespace Text

/-- White space beyond ASCII. -/
def isWideBlank (n : Nat) : Bool :=
  n = 0x85 || n = 0xA0 || n = 0x1680 || (0x2000 ≤ n && n ≤ 0x200A)
    || n = 0x2028 || n = 0x2029 || n = 0x202F || n = 0x205F || n = 0x3000

/-- Unicode white space: tab to carriage return, the four information separators,
    the space, and the blanks beyond ASCII. -/
def isBlank (c : Char) : Bool :=
  let n := c.toNat
  (9 ≤ n && n ≤ 13) || (28 ≤ n && n ≤ 32) || isWideBlank n

/-- The blanks that may separate two words: space, tab, form feed, carriage
    return and line feed. -/
def isSkippable (c : Char) : Bool :=
  c = ' ' || c = '\t' || c = '\x0c' || c = '\r' || c = '\n'

theorem isBlank_of_isSkippable {c : Char} (h : isSkippable c = true) : isBlank c = true := by
  simp only [isSkippable, Bool.or_eq_true, decide_eq_true_eq] at h
  rcases h with (((rfl | rfl) | rfl) | rfl) | rfl <;> decide

/-- The blanks that may stand around a number that is read from a text: all but
    the information separators. -/
def isPadding (c : Char) : Bool :=
  let n := c.toNat
  (9 ≤ n && n ≤ 13) || n = 32 || isWideBlank n

/-- The text without the characters of a class at its two ends. -/
def trim (p : Char → Bool) (s : List Char) : List Char :=
  ((s.dropWhile p).reverse.dropWhile p).reverse

end Text
end StackCalc
