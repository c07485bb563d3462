/-
  StackCalc.Shell.NameTable

  The list of all operations, in as many columns as the terminal has room for.
-/

import StackCalc.Config.Location
import StackCalc.Double.Numeral
import StackCalc.Text.Column

namespace StackCalc
namespace Shell

open StackCalc.Text

/-- The integer that a text denotes in base ten, if it has not too many digits. -/
def integer? (s : List Char) : Option Int :=
  (Double.withoutUnderscores? false (trim isPadding s)).bind fun text =>
    let (negative, digits) := Double.takeSign text
    if digits.isEmpty || !digits.all isDigit || digitLimit < digits.length then none
    else some (if negative then -(digitsValue digits : Int) else digitsValue digits)

/-- The width of the terminal: what the environment says, if it is positive. -/
def terminalWidth (environment : Environment) : Nat :=
  match (environment.get? "COLUMNS").bind fun s => integer? s.toList with
  | some n => if n > 0 then n.toNat else 80
  | none => 80

/-- Rows of a number of names each. -/
def rows (count : Nat) : Nat → List String → List (List String)
  | 0, _ => []
  | _ + 1, [] => []
  | fuel + 1, names => names.take count :: rows count fuel (names.drop count)

/-- A text without blanks at its end. -/
def withoutFinalBlanks (s : String) : String :=
  String.ofList (s.toList.reverse.dropWhile isBlank).reverse

/-- All names in columns, as many as fit into the width. -/
def nameTable (names : List String) (width : Nat) : String :=
  let column := (names.map String.length).foldl max 0 + 2
  let count := max 1 (width / column)
  String.join <| (rows count names.length names).map fun row =>
    withoutFinalBlanks (String.join (row.map (alignLeft column))) ++ "\n"

end Shell
end StackCalc
