/-
  StackCalc.Double.Numeral

  Numerals and the doubles they denote.  A numeral is an optional sign, digits
  with at most one point, and an optional exponent; the digits are decimal digits
  of any script.  `Numeral.ofText?` recognises exactly these texts, and
  `Numeral.value` rounds what they denote to the nearest double.
-/

import StackCalc.Double.Decimal
import StackCalc.Text.Blank
import StackCalc.Text.DecimalDigit

namespace StackCalc
namespace Double

open StackCalc.Text

/-- The parts of a numeral: sign, the digits before and after the point, and the
    exponent. -/
structure Numeral where
  negative : Bool
  whole : List Char
  fraction : List Char
  exponent : Int

/-- A sign, if there is one, and what follows it. -/
def takeSign : List Char → Bool × List Char
  | '-' :: rest => (true, rest)
  | '+' :: rest => (false, rest)
  | rest => (false, rest)

/-- The exponent that a text consists of: nothing at all, or the letter e, an
    optional sign and at least one digit. -/
def exponentOf? : List Char → Option Int
  | [] => some 0
  | e :: rest =>
    if e = 'e' || e = 'E' then
      let (negative, digits) := takeSign rest
      if digits.isEmpty || !digits.all isDigit then none
      else some (if negative then -(digitsValue digits : Int) else digitsValue digits)
    else none

/-- The parts of a text that is a numeral as a whole. -/
def Numeral.ofText? (s : List Char) : Option Numeral :=
  let (negative, body) := takeSign s
  let whole := body.takeWhile isDigit
  let (fraction, rest) := match body.dropWhile isDigit with
    | '.' :: tail => (tail.takeWhile isDigit, tail.dropWhile isDigit)
    | tail => ([], tail)
  if whole.isEmpty && fraction.isEmpty then none
  else (exponentOf? rest).map fun exponent => ⟨negative, whole, fraction, exponent⟩

/-- Whether a text is a numeral. -/
def isNumeral (s : List Char) : Bool :=
  (Numeral.ofText? s).isSome

/-- The double nearest to a decimal.  A decimal of 310 digits before the point is
    beyond every double and one with 330 zeros behind it below all of them, so
    only the powers of ten in between are ever computed. -/
def ofDecimal (negative : Bool) (x : Decimal) : Float :=
  let point := (digitCount x.digits : Int) - x.places
  if x.digits = 0 then ofMagnitude negative 0
  else if point > 310 then ofMagnitude negative infinityBits
  else if point < -330 then ofMagnitude negative 0
  else ofMagnitude negative x.bits

/-- The double nearest to what a numeral denotes. -/
def Numeral.value (x : Numeral) : Float :=
  ofDecimal x.negative
    ⟨digitsValue (x.whole ++ x.fraction), (x.fraction.length : Int) - x.exponent⟩

/-! ## Reading -/

/-- A text without the underscores between its digits; an underscore anywhere else
    makes the text unreadable. -/
def withoutUnderscores? (afterDigit : Bool) : List Char → Option (List Char)
  | [] => some []
  | '_' :: c :: rest =>
    if afterDigit && isDigit c then (withoutUnderscores? true rest).map (c :: ·) else none
  | '_' :: [] => none
  | c :: rest => (withoutUnderscores? (isDigit c) rest).map (c :: ·)

/-- The value of a word for infinity or for the non-number, in any case. -/
def ofWord? (s : List Char) : Option Float :=
  let (negative, body) := takeSign s
  let word := String.ofList (body.map Char.toLower)
  if word = "inf" || word = "infinity" then
    some (if negative then negativeInfinity else infinity)
  else if word = "nan" then some nan
  else none

/-- The double that a text denotes: a numeral, with single underscores between
    its digits, or a word, between blanks. -/
def read? (s : List Char) : Option Float :=
  (withoutUnderscores? false (trim isPadding s)).bind fun text =>
    match Numeral.ofText? text with
    | some numeral => some numeral.value
    | none => ofWord? text

end Double
end StackCalc
