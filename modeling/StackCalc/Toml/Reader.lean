/-
  StackCalc.Toml.Reader

  Readers of the parts of a TOML document.  A reader takes the rest of the text and
  gives what it read and the rest behind it, or nothing if the text is not
  well-formed there.  Values can have defects beyond that, and the first defect of a
  document is the one that counts.  Here are blanks and comments, which stand between
  all parts.
-/

namespace StackCalc
namespace Toml

/-- A reader of some part of a document. -/
abbrev Reader (α : Type) := List Char → Option (α × List Char)

/-- Why a text is no document: it is not well-formed, an integer has more digits than
    can be read, or values are nested too deeply. -/
inductive Defect where
  | malformed
  | longInteger (digits : Nat)
  | tooDeep
deriving DecidableEq, Repr

/-- What a reader finds, where a part is required. -/
def required {α : Type} : Option α → Except Defect α
  | some found => .ok found
  | none => .error .malformed

/-- Blanks within a line. -/
def isSpace (c : Char) : Bool := c = ' ' || c = '\t'

/-- Control characters other than the tab. -/
def isControl (c : Char) : Bool := (c.toNat < 32 && c ≠ '\t') || c.toNat = 127

/-- Control characters that may not even stand in a text of several lines. -/
def isStrictControl (c : Char) : Bool := c ≠ '\n' && isControl c

/-- The rest behind blanks. -/
def skipSpaces (s : List Char) : List Char := s.dropWhile isSpace

/-- The rest behind a comment, if there is one, up to the end of its line. -/
def skipComment? (s : List Char) : Option (List Char) :=
  match s with
  | '#' :: rest =>
    if (rest.takeWhile (· ≠ '\n')).any isControl then none
    else some (rest.dropWhile (· ≠ '\n'))
  | _ => some s

/-- The rest behind blanks, line ends and comments, of which there are at most
    `fuel`. -/
def skipLines? : Nat → List Char → Option (List Char)
  | 0, s => some s
  | fuel + 1, s =>
    match s.dropWhile fun c => isSpace c || c = '\n' with
    | '#' :: rest => (skipComment? ('#' :: rest)).bind (skipLines? fuel)
    | rest => some rest

/-- The rest behind a text that must come next. -/
def expect? (text : List Char) (s : List Char) : Option (List Char) :=
  if text.isPrefixOf s then some (s.drop text.length) else none

end Toml
end StackCalc
