/-
  StackCalc.Error.Source

  What can be wrong with a source text: its structure, a word that looks like a
  number and is none, or a blank that may not stand between words.
-/

import StackCalc.Token.Lexer

namespace StackCalc

/-- What is wrong with the structure of a text. -/
inductive SourceProblem where
  | unfinished
  | strayBlank (stray : Stray)
  | unmatched (closing opening : String)
  | outsideConditional (keyword : String)
  | nestedDefinition
  | combinatorExpected (found : String)
  | combinatorMisplaced (combinator : String)
  | nameExpected (found : String)
  | unexpected (found : String)
  | variableExpected (directive found : String)
  | unfinishedProgram
  | malformedNumber (word : String)
deriving DecidableEq, Repr

namespace SourceProblem

/-- Whether more text could still mend the fault, as far as the reader knows. -/
def isIncomplete : SourceProblem → Bool
  | unfinished => true
  | strayBlank _ => true
  | _ => false

/-- A word between backquotes. -/
def ticked (word : String) : String := "`" ++ word ++ "`"

/-- The wording for a blank that no word can contain.  This is the first line of what the
    lexer says; it goes on with a copy of the text around the blank and with the words that
    it looked for, which are left out. -/
def strayMessage (stray : Stray) : String :=
  "No terminal matches \'" ++ stray.char.toString
    ++ "\' in the current parser context, at line " ++ toString stray.position.line
    ++ " col " ++ toString stray.position.column

/-- The wording of a fault. -/
def message : SourceProblem → String
  | unfinished => "Input ended inside an open definition, block or conditional."
  | strayBlank stray => strayMessage stray
  | unmatched closing opening =>
    "Found " ++ ticked closing ++ " without a matching " ++ ticked opening ++ "."
  | outsideConditional keyword => "Found " ++ ticked keyword ++ " outside of a conditional."
  | nestedDefinition => "Function definitions cannot be nested."
  | combinatorExpected found =>
    "Block must be followed by `map`, `fold` or `scan`, found " ++ ticked found ++ "."
  | combinatorMisplaced combinator =>
    "Combinator " ++ ticked combinator ++ " must directly follow a `[ ... ]` block."
  | nameExpected found => "Expected a name, found " ++ ticked found ++ "."
  | unexpected found => "Unexpected " ++ ticked found ++ "."
  | variableExpected directive found =>
    ticked directive ++ " needs a variable name, found " ++ ticked found ++ "."
  | unfinishedProgram => "Input ended inside an open block, conditional or directive."
  | malformedNumber word => "Malformed number " ++ ticked word ++ "."

end SourceProblem

/-- A fault of a text: what is wrong, the word in question, and as much as is
    known of where it stands. -/
structure SourceError where
  problem : SourceProblem
  token : String
  name : Option String
  line : Option Int
  column : Option Int
deriving DecidableEq, Repr

end StackCalc
