/-
  StackCalc.Double.Basic

  Double-precision numbers as exact multiples of the smallest positive one.  A
  finite double is a sign and a whole number of units of 2 ^ -1074, its `units`;
  conversely `nearestBits` rounds a ratio of units to the bit pattern of the
  nearest double, a half to the even neighbour.  The functions of this library
  that have to be exact (reading and writing decimals, remainders, truncation) are
  computed on units.
-/

namespace StackCalc
namespace Double

/-- What a double denotes: not a number, an infinity, or a signed whole number
    `mantissa * 2 ^ exponent` of units. -/
inductive Shape where
  | nan
  | infinite (negative : Bool)
  | finite (negative : Bool) (mantissa exponent : Nat)
deriving DecidableEq, Repr

/-- The bit pattern of positive infinity; every finite magnitude is below it. -/
def infinityBits : Nat := 2047 * Nat.pow 2 52

/-- The shape of a bit pattern of 64 bits. -/
def shapeOfBits (bits : Nat) : Shape :=
  let negative := bits / Nat.pow 2 63 % 2 = 1
  let biased := bits / Nat.pow 2 52 % Nat.pow 2 11
  let fraction := bits % Nat.pow 2 52
  if biased = 2047 then
    if fraction = 0 then .infinite negative else .nan
  else if biased = 0 then .finite negative fraction 0
  else .finite negative (Nat.pow 2 52 + fraction) (biased - 1)

/-- The shape of a double. -/
def shape (x : Float) : Shape :=
  shapeOfBits x.toBits.toNat

/-- How many units one is. -/
def one : Nat := Nat.pow 2 1074

/-- The magnitude of a finite double in units; zero for all others. -/
def units (x : Float) : Nat :=
  match shape x with
  | .finite _ mantissa exponent => mantissa * Nat.pow 2 exponent
  | _ => 0

/-- Whether the sign of a double is negative; a number that is none has no sign. -/
def isNegative (x : Float) : Bool :=
  match shape x with
  | .nan => false
  | .infinite negative => negative
  | .finite negative _ _ => negative

/-- Neither an infinity nor a non-number. -/
def isFinite (x : Float) : Bool :=
  match shape x with
  | .finite .. => true
  | _ => false

/-- One of the two infinities. -/
def isInfinite (x : Float) : Bool :=
  match shape x with
  | .infinite _ => true
  | _ => false

/-- The non-number. -/
def isNaN (x : Float) : Bool :=
  match shape x with
  | .nan => true
  | _ => false

/-! ## Rounding -/

/-- The whole number nearest to `n / d`; a half goes to the even neighbour. -/
def roundHalfEven (n d : Nat) : Nat :=
  let quotient := n / d
  let rest := n % d
  if 2 * rest < d then quotient
  else if 2 * rest > d then quotient + 1
  else if quotient % 2 = 0 then quotient
  else quotient + 1

/-- The bit pattern of the double nearest to `n / d` units, which is that of
    infinity from half a step above the largest finite double on.  A mantissa that
    rounds up to 2 ^ 53 carries into the exponent by itself. -/
def nearestBits (n d : Nat) : Nat :=
  let shift := (n / d).log2 - 52
  min (shift * Nat.pow 2 52 + roundHalfEven n (d * Nat.pow 2 shift)) infinityBits

/-- The double with the given sign and magnitude bits. -/
def ofMagnitude (negative : Bool) (bits : Nat) : Float :=
  Float.ofBits (UInt64.ofNat (if negative then Nat.pow 2 63 + bits else bits))

/-- The double nearest to `n / d` units, with a sign. -/
def ofUnits (negative : Bool) (n d : Nat) : Float :=
  ofMagnitude negative (nearestBits n d)

/-- The double nearest to a natural number. -/
def ofNat (n : Nat) : Float :=
  ofUnits false (n * one) 1

/-- The double nearest to a natural number, unless that is infinity. -/
def ofNat? (n : Nat) : Option Float :=
  let bits := nearestBits (n * one) 1
  if bits < infinityBits then some (ofMagnitude false bits) else none

/-- The double nearest to an integer, unless that is an infinity. -/
def ofInt? (n : Int) : Option Float :=
  let bits := nearestBits (n.natAbs * one) 1
  if bits < infinityBits then some (ofMagnitude (n < 0) bits) else none

/-! ## Whole numbers -/

/-- The magnitude of a finite double without its fraction. -/
def wholePart (x : Float) : Nat :=
  units x / one

/-- Whether a finite double is a whole number. -/
def isWhole (x : Float) : Bool :=
  isFinite x && units x % one = 0

/-- A finite double without the fraction of its magnitude. -/
def truncated (x : Float) : Float :=
  ofUnits (isNegative x) (wholePart x * one) 1

/-! ## Constants -/

/-- Positive infinity. -/
def infinity : Float := ofMagnitude false infinityBits

/-- Negative infinity. -/
def negativeInfinity : Float := ofMagnitude true infinityBits

/-- The non-number. -/
def nan : Float := Float.ofBits 0x7FF8000000000000

/-- The magnitude of one double with the sign of another. -/
def withSignOf (magnitude sign : Float) : Float :=
  ofMagnitude (isNegative sign) (magnitude.toBits.toNat % Nat.pow 2 63)

end Double
end StackCalc
