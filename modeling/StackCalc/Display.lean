/-
  StackCalc.Display

  What is displayed of a result: the stack, one cell on a line, and the lines of a
  source text around a word, which stands out in colour.
-/

import StackCalc.Cell
import StackCalc.Text.Colour
import StackCalc.Text.Column
import StackCalc.Text.Lines

namespace StackCalc

open StackCalc.Text

/-! ## Stacks -/

/-- The line of a cell at a depth, counted from one at the top. -/
def stackLine (levels : Bool) (precision : Option Nat) (depth : Nat) (cell : Cell) : String :=
  let level :=
    if levels then Colour.paint "90" (alignRight 3 (toString depth) ++ ":") ++ " " else ""
  level ++ Colour.paint (if depth = 1 then "1;92" else "94") (cell.shown precision) ++ "\n"

/-- A stack from the bottom to the top, the top in a colour of its own. -/
def showStack (levels : Bool) (precision : Option Nat) (stack : Stack) : String :=
  let lines := stack.mapIdx fun i cell => stackLine levels precision (i + 1) cell
  String.join lines.reverse

/-! ## Source texts -/

/-- A line with the characters from a column on, as many as the word has, in colour;
    columns count from one.  A column outside the line marks nothing. -/
def highlight (column : Option Int) (word : String) (line : List Char) : String :=
  match column with
  | some (.ofNat (start + 1)) =>
    if start < line.length then
      String.ofList (line.take start)
        ++ Colour.code "48;5;30" ++ Colour.code "1;97"
        ++ String.ofList ((line.drop start).take word.length) ++ Colour.reset
        ++ String.ofList ((line.drop start).drop word.length)
    else String.ofList line
  | _ => String.ofList line

/-- A row of the context: the number of the line, counted from one, and the line. -/
def contextRow (number : Nat) (marked : Bool) (column : Option Int) (word : String)
    (line : List Char) : String :=
  Colour.code (if marked then "97" else "90") ++ alignRight 5 (toString number) ++ " |"
    ++ Colour.reset ++ " "
    ++ (if marked then highlight column word line else String.ofList line)

/-- The lines of a text around a line, at most two on either side, below the name of
    the text; nothing if there is no such line number. -/
def sourceContext (name : String) (line column : Option Int) (word : String)
    (lines : List (List Char)) : String :=
  match line with
  | some (.ofNat (before + 1)) =>
    let number := before + 1
    let rows := lines.mapIdx fun i text =>
      if number ≤ i + 3 && i < number + 2 then
        [contextRow (i + 1) (i + 1 = number) column word (stripNewlines text)]
      else []
    let title :=
      Colour.paint "97" ("  File \"" ++ name ++ "\", line " ++ toString number)
    "\n" ++ "\n".intercalate (title :: rows.flatten) ++ "\n"
  | _ => ""

/-- The context in a text that was typed in. -/
def typedContext (name : String) (line column : Option Int) (word source : String) : String :=
  sourceContext name line column word (typedLines [] source.toList)

/-- The context in the text of a file. -/
def fileContext (name : String) (line column : Option Int) (word content : String) : String :=
  sourceContext name line column word (fileLines content.toList)

end StackCalc
