/-
  StackCalc.Double.Arithmetic

  The real functions of the calculator on doubles.  Where a function is undefined
  the result says so; division and powers follow the conventions for infinities
  instead.  Remainders, rounding and the greatest common divisor are exact.
-/

import StackCalc.Double.Basic

namespace StackCalc
namespace Double

/-- Why a real function has no value. -/
inductive Undefined where
  | outsideDomain
  | divisionByZero
  | integerTooLarge
deriving DecidableEq, Repr

/-! ## Division and powers -/

/-- Division, where a zero divisor gives the infinity with the product of both
    signs, or no number if there is nothing to divide. -/
def divide (x y : Float) : Float :=
  if y == 0 then
    if x == 0 || isNaN x then nan
    else ofMagnitude (isNegative x != isNegative y) infinityBits
  else x / y

/-- Whether a double is an odd whole number. -/
def isOdd (x : Float) : Bool :=
  isWhole x && wholePart x % 2 = 1

/-- Powers, where a zero base with a negative exponent and a result beyond the
    doubles give a signed infinity. -/
def power (x y : Float) : Except Undefined Float :=
  if x == 0 && y < 0 then
    .ok (if isOdd y then ofMagnitude (isNegative x) infinityBits else infinity)
  else if isFinite x && isFinite y && x < 0 && !isWhole y then .error .outsideDomain
  else
    let result := Float.pow x y
    if isFinite x && isFinite y && isInfinite result then
      .ok (if x < 0 && isOdd y then negativeInfinity else infinity)
    else .ok result

/-- The square root of a number that is not negative. -/
def squareRoot (x : Float) : Except Undefined Float :=
  if x < 0 then .error .outsideDomain else .ok (Float.sqrt x)

/-! ## Whole numbers -/

/-- The remainder of a division, with the sign of the dividend. -/
def remainder (x y : Float) : Float :=
  if y == 0 || isInfinite x || isNaN x || isNaN y then nan
  else if isInfinite y then x
  else ofUnits (isNegative x) (units x % units y) 1

/-- The nearest whole number: half is added to the magnitude before its fraction
    is cut off. -/
def round (x : Float) : Float :=
  if isFinite x then withSignOf (truncated (x.abs + 0.5)) x else x

/-- The greatest common divisor of the whole parts of two finite doubles. -/
def gcd (x y : Float) : Except Undefined Float :=
  match ofNat? (Nat.gcd (wholePart x) (wholePart y)) with
  | some result => .ok result
  | none => .error .integerTooLarge

/-- The product of the numbers from one to n. -/
def factorial : Nat → Nat
  | 0 => 1
  | n + 1 => (n + 1) * factorial n

/-! ## Angles, logarithms -/

/-- The ratio of a circle's circumference to its diameter. -/
def pi : Float := 3.141592653589793

/-- The base of the natural logarithm. -/
def e : Float := 2.718281828459045

/-- A function that is undefined at the infinities. -/
def onFinite (f : Float → Float) (x : Float) : Except Undefined Float :=
  if isInfinite x then .error .outsideDomain else .ok (f x)

/-- A function that is defined between minus one and one. -/
def onUnitInterval (f : Float → Float) (x : Float) : Except Undefined Float :=
  if x > 1 || x < -1 then .error .outsideDomain else .ok (f x)

/-- A function that is defined on positive numbers. -/
def onPositive (f : Float → Float) (x : Float) : Except Undefined Float :=
  if x <= 0 then .error .outsideDomain else .ok (f x)

/-- The logarithm of a number to a base. -/
def logarithm (x base : Float) : Except Undefined Float :=
  match onPositive Float.log x, onPositive Float.log base with
  | .ok numerator, .ok denominator =>
    if denominator == 0 then .error .divisionByZero else .ok (numerator / denominator)
  | _, _ => .error .outsideDomain

/-- Degrees to radians. -/
def radians (x : Float) : Float := x * (pi / 180.0)

/-- Radians to degrees. -/
def degrees (x : Float) : Float := x * (180.0 / pi)

end Double
end StackCalc
