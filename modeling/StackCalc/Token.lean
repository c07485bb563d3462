/-
  StackCalc.Token

  The words of a program.  A `Lexeme` is a word as it stands in a text; a `Token`
  is a word on its way into a program, whose place may be known only in part.
-/

import StackCalc.Place

namespace StackCalc

/-- The kinds of word: the brackets of definitions and blocks, the combinators,
    the parts of conditionals, the two directives, and items.  A token that comes
    from elsewhere may be of none of them. -/
inductive Kind where
  | definitionStart
  | definitionEnd
  | blockOpen
  | blockClose
  | combinator
  | test
  | alternative
  | testEnd
  | store
  | fetch
  | number
  | symbol
  | word
  | foreign
deriving DecidableEq, Repr

/-- A word, with the line and the column of its first character, counted from
    one.  A word never spans lines. -/
structure Lexeme where
  kind : Kind
  text : String
  line : Nat
  column : Nat
deriving DecidableEq, Repr

/-- A word on its way into a program: its lines, if they are to count for the
    extent of the program, and what else is known of its place. -/
structure Token where
  kind : Kind
  text : String
  lines : Option (Int × Int)
  place : Place
deriving DecidableEq, Repr

/-- The place of the node that a token becomes. -/
def Token.settled (token : Token) : Place :=
  match token.lines with
  | some (first, last) => { token.place with first := some first, last := some last }
  | none => token.place

/-- A lexeme of a text with the given name, as a token. -/
def Lexeme.token (name : Option String) (x : Lexeme) : Token :=
  { kind := x.kind
    text := x.text
    lines := some (x.line, x.line)
    place :=
      { origin := Origin.ofName? name
        first := none
        last := none
        columns := some (x.column, x.column + x.text.length) } }

end StackCalc
