/-
  StackCalc.Double.Decimal

  The decimal texts of a double.  `shortest` finds the fewest digits that read
  back to the same double and, of those, the nearest to it; `fixed` rounds the
  exact value to a number of places.  `NumberStyle` holds the decisions that turn
  digits into a text.
-/

import StackCalc.Double.Basic

namespace StackCalc
namespace Double

/-- The number of decimal digits of a natural number. -/
def digitCount (n : Nat) : Nat :=
  (Nat.toDigits 10 n).length

/-- A decimal number `digits * 10 ^ -places`. -/
structure Decimal where
  digits : Nat
  places : Int
deriving DecidableEq, Repr

/-- A decimal as a ratio of units. -/
def Decimal.ratio (x : Decimal) : Nat × Nat :=
  (x.digits * Nat.pow 10 (-x.places).toNat * one, Nat.pow 10 x.places.toNat)

/-- The magnitude bits of the double nearest to a decimal. -/
def Decimal.bits (x : Decimal) : Nat :=
  nearestBits x.ratio.1 x.ratio.2

/-- The position of the decimal point of `n > 0` units: the least `p` with a value
    below `10 ^ p`.  The smallest positive double is above `10 ^ -330`. -/
def pointOf (n : Nat) : Int :=
  (digitCount (n * Nat.pow 10 330 / one) : Int) - 330

/-- The two decimals of the given number of places around `n` units, the nearer
    one first and of two equally near ones the even one. -/
def neighbours (n : Nat) (places : Int) : List Decimal :=
  let numerator := n * Nat.pow 10 places.toNat
  let denominator := one * Nat.pow 10 (-places).toNat
  let below := numerator / denominator
  let rest := numerator % denominator
  if 2 * rest < denominator || (2 * rest = denominator && below % 2 = 0) then
    [⟨below, places⟩, ⟨below + 1, places⟩]
  else
    [⟨below + 1, places⟩, ⟨below, places⟩]

/-- The decimal of at most `count` digits around `n` units that reads back to the
    magnitude bits `bits`, if there is one. -/
def readingBack? (n bits : Nat) (count : Nat) : Option Decimal :=
  (neighbours n (count - pointOf n)).find? fun candidate => candidate.bits = bits

/-- The shortest decimal that reads back to the double of `n > 0` units with the
    magnitude bits `bits`.  Seventeen digits are enough for every double; behind them
    stands the exact value, whose unit is five to the 1074th of the last of 1074
    places. -/
def shortestDecimal (n bits : Nat) : Decimal :=
  ((List.range 17).findSome? fun k => readingBack? n bits (k + 1)).getD
    ⟨n * Nat.pow 5 1074, 1074⟩

/-- Digits without zeros at the end. -/
def withoutFinalZeros (digits : List Char) : List Char :=
  (digits.reverse.dropWhile (· = '0')).reverse

/-! ## Styles -/

/-- How digits are laid out: decimal exponents from `low` up to, but not
    including, `high` are written positionally, all others with an exponent of at
    least `exponentWidth` digits and its sign. -/
structure NumberStyle where
  low : Int
  high : Int
  exponentWidth : Nat

/-- Numbers in programs and messages: positional from 0.0001 up to ten to the
    sixteenth, whole numbers with one zero behind the point. -/
def NumberStyle.plain : NumberStyle := ⟨-4, 16, 2⟩

/-- Digits with the decimal point at `point`, counted from the first digit. -/
def positional (digits : List Char) (point : Int) : List Char :=
  if point ≤ 0 then
    '0' :: '.' :: List.replicate (-point).toNat '0' ++ digits
  else
    let whole := point.toNat
    if digits.length ≤ whole then
      digits ++ List.replicate (whole - digits.length) '0' ++ ['.', '0']
    else
      digits.take whole ++ '.' :: digits.drop whole

/-- Digits with one of them before the point, and the exponent that goes with it. -/
def scientific (width : Nat) (digits : List Char) (exponent : Int) : List Char :=
  let mantissa := match digits with
    | [] => ['0']
    | [digit] => [digit]
    | digit :: rest => digit :: '.' :: rest
  let written := Nat.toDigits 10 exponent.natAbs
  mantissa ++ 'e' :: (if exponent < 0 then '-' else '+')
    :: List.replicate (width - written.length) '0' ++ written

/-- Digits with the decimal point at `point` in a style. -/
def NumberStyle.layOut (style : NumberStyle) (digits : List Char) (point : Int) : List Char :=
  if style.low ≤ point - 1 && point - 1 < style.high then positional digits point
  else scientific style.exponentWidth digits (point - 1)

/-- The sign in front of a negative number. -/
def signed (negative : Bool) (digits : List Char) : List Char :=
  if negative then '-' :: digits else digits

/-- The shortest text of a double in a style. -/
def shortestIn (style : NumberStyle) (x : Float) : List Char :=
  match shape x with
  | .nan => ['n', 'a', 'n']
  | .infinite negative => signed negative ['i', 'n', 'f']
  | .finite negative mantissa exponent =>
    let n := mantissa * Nat.pow 2 exponent
    if n = 0 then signed negative ['0', '.', '0']
    else
      let decimal := shortestDecimal n (x.toBits.toNat % Nat.pow 2 63)
      let digits := Nat.toDigits 10 decimal.digits
      signed negative
        (style.layOut (withoutFinalZeros digits) (digits.length - decimal.places))

/-- The shortest text of a double that reads back to it. -/
def shortest (x : Float) : String :=
  String.ofList (shortestIn .plain x)

/-! ## Fixed places -/

/-- The exact value of a finite double rounded to a number of places, a half to
    the even neighbour. -/
def fixed (places : Nat) (x : Float) : List Char :=
  let digits := Nat.toDigits 10 (roundHalfEven (units x * Nat.pow 10 places) one)
  let padded := List.replicate (places + 1 - digits.length) '0' ++ digits
  let whole := padded.length - places
  signed (isNegative x)
    (if places = 0 then padded else padded.take whole ++ '.' :: padded.drop whole)

end Double
end StackCalc
