/-
  StackCalc.Operation.Conversion

  Conversions between numbers, numerals in base two and sixteen, and colours.
-/

import StackCalc.Operation

namespace StackCalc
namespace Conversion

/-- The natural number that a double is. -/
def natural (purpose : Purpose) (x : Float) : Except Trouble Nat :=
  if Double.isWhole x && !(x < 0) then .ok (Double.wholePart x)
  else .error (.problem (.notWhole purpose x))

/-- The text that a cell gives to a conversion: a text itself, a number by its
    decimal digits. -/
def textOf (purpose : Purpose) : Cell → Except Trouble (List Char)
  | .text s => .ok s.toList
  | .number x => (natural purpose x).map (Nat.toDigits 10 ·)

/-- The integer that a text denotes in a base. -/
def readText (base : Base) (s : List Char) : Except Trouble Int :=
  match base.read? s with
  | some n => .ok n
  | none => .error (.problem (.badNumeral (String.ofList s) base))

/-- The integer that a cell denotes in a base. -/
def readCell (base : Base) (c : Cell) : Except Trouble Int :=
  (textOf .baseConversion c).bind (readText base)

/-- The double nearest to an integer. -/
def toDouble (n : Int) : Except Trouble Float :=
  match Double.ofInt? n with
  | some x => .ok x
  | none => .error (.refused (.undefined .integerTooLarge))

/-- A number in a base. -/
def writeNumber (base : Base) (purpose : Purpose) (x : Float) : Except Trouble String :=
  (natural purpose x).map fun n => String.ofList (base.write n)

/-- The value of a cell that is a numeral in a base. -/
def valueIn (base : Base) (c : Cell) : Except Trouble Float :=
  (readCell base c).bind toDouble

/-- A cell that is a numeral in one base, written in another. -/
def respell (source target : Base) (c : Cell) : Except Trouble String :=
  (readCell source c).map fun n => String.ofList (target.writeInt n)

/-! ## Colours -/

/-- The three channels of a colour of six hexadecimal digits, with or without
    number signs in front. -/
def channels (c : Cell) : Except Trouble (Float × Float × Float) := do
  let text := (← textOf .colour c).dropWhile (· = '#')
  match text with
  | [r₁, r₂, g₁, g₂, b₁, b₂] =>
    let r ← readText .hexadecimal [r₁, r₂]
    let g ← readText .hexadecimal [g₁, g₂]
    let b ← readText .hexadecimal [b₁, b₂]
    .ok (← toDouble r, ← toDouble g, ← toDouble b)
  | _ => .error (.problem (.colourLength (String.ofList text)))

/-- A channel as two hexadecimal digits. -/
def channelDigits (n : Nat) : List Char :=
  let digits := Base.hexadecimal.write n
  List.replicate (2 - digits.length) '0' ++ digits

/-- The six hexadecimal digits of a colour. -/
def colour (r g b : Float) : Except Trouble String := do
  let channels := [← natural .colour r, ← natural .colour g, ← natural .colour b]
  if channels.any (· > 255) then .error (.problem (.channelRange channels))
  else .ok (String.ofList (channels.flatMap channelDigits))

end Conversion
end StackCalc
