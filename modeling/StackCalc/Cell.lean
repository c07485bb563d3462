/-
  StackCalc.Cell

  What the stack holds: numbers, and texts for symbols and converted numerals.
  `Item` adds the other values that the display knows how to show.
-/

import StackCalc.Double.Decimal
import StackCalc.Text.Quoted

namespace StackCalc

/-- A number or a text. -/
inductive Cell where
  | number (x : Float)
  | text (s : String)
deriving DecidableEq, Repr

/-- The stack, top first. -/
abbrev Stack := List Cell

/-! ## Showing numbers -/

/-- Whole numbers below this many units are shown without a fraction. -/
def wholeLimit : Nat := Nat.pow 10 16 * Double.one

/-- A number as it is shown on the stack.  Whole numbers below ten to the
    sixteenth have no fraction; others have as many places as the precision asks
    for, without final zeros and without a final point, or as many as they need. -/
def showNumber (precision : Option Nat) (x : Float) : String :=
  match Double.shape x with
  | .nan => "NaN"
  | .infinite negative => if negative then "-inf" else "inf"
  | .finite negative mantissa exponent =>
    let n := mantissa * Nat.pow 2 exponent
    if n < wholeLimit && n % Double.one = 0 then
      let whole := n / Double.one
      String.ofList (Double.signed (negative && whole ≠ 0) (Nat.toDigits 10 whole))
    else match precision with
      | some places =>
        let digits := Double.withoutFinalZeros (Double.fixed places x)
        String.ofList (digits.reverse.dropWhile (· = '.')).reverse
      | none => Double.shortest x

namespace Cell

/-- A cell as it is shown on the stack. -/
def shown (precision : Option Nat) : Cell → String
  | .number x => showNumber precision x
  | .text s => s

/-- A cell as it is shown inside brackets: numbers in full, texts in quotes. -/
def quoted : Cell → String
  | .number x => Double.shortest x
  | .text s => Text.quote s

end Cell

/-! ## Items -/

/-- Anything that can be shown: nothing, integers, truth values, numbers, texts,
    lists, and stacks (top first). -/
inductive Item where
  | nothing
  | integer (n : Int)
  | truth (b : Bool)
  | number (x : Float)
  | text (s : String)
  | list (items : List Item)
  | stack (items : List Item)
deriving Inhabited

namespace Item

mutual

/-- An item as it is shown; a stack is shown from the bottom to the top. -/
def shown (precision : Option Nat) : Item → String
  | .nothing => "None"
  | .integer n => toString n
  | .truth b => if b then "true" else "false"
  | .number x => showNumber precision x
  | .text s => s
  | .list items => "[" ++ " ".intercalate (shownAll precision items) ++ "]"
  | .stack items => "<" ++ " ".intercalate (shownAll precision items).reverse ++ ">"

/-- All items of a list as they are shown. -/
def shownAll (precision : Option Nat) : List Item → List String
  | [] => []
  | item :: rest => shown precision item :: shownAll precision rest

end

/-- A single item as it is shown inside brackets. -/
def quoted : Item → String
  | .integer n => toString n
  | .truth b => if b then "True" else "False"
  | .number x => Double.shortest x
  | .text s => Text.quote s
  | other => other.shown none

end Item

/-- A cell as an item. -/
def Cell.item : Cell → Item
  | .number x => .number x
  | .text s => .text s

/-! ## Stacks -/

/-- All items from the bottom to the top between angle brackets. -/
def quoteStack (topFirst : List Item) : String :=
  if topFirst.isEmpty then "< nil >"
  else "< " ++ " ".intercalate (topFirst.reverse.map Item.quoted) ++ " >"

/-- Items pushed onto a base, so that the first of them ends up on top. -/
def pushAll {α : Type} (topFirst base : List α) : List α :=
  topFirst ++ base

/-- Two ways to misuse the empty stack: to make a second one, and to take a stack
    for a truth value. -/
inductive StackMisuse where
  | secondEmpty
  | truthValue
deriving DecidableEq, Repr

/-- The wording of a misuse. -/
def StackMisuse.message : StackMisuse → String
  | .secondEmpty => "Use the canonical `nil` instance for empty stacks"
  | .truthValue => "Stack truth value is ambiguous; compare with `is nil` or `is not nil`."

end StackCalc
