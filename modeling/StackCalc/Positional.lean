/-
  StackCalc.Positional

  Whole numbers in base two and base sixteen.  `write` prints the digits of a
  number, most significant first.  `read?` accepts more than `write` prints: padding,
  a sign, the marker of the base in front (once more where it was removed already),
  single underscores between digits, and the decimal digits of every script.
-/

import StackCalc.Text.Blank
import StackCalc.Text.DecimalDigit

namespace StackCalc

/-- The bases other than ten that numbers are converted to and from. -/
inductive Base where
  | binary
  | hexadecimal
deriving DecidableEq, Repr

namespace Base

open StackCalc.Text

/-- The number of different digits. -/
def radix : Base → Nat
  | .binary => 2
  | .hexadecimal => 16

/-- The lower-case letter that marks a numeral of the base, after a zero. -/
def marker : Base → Char
  | .binary => 'b'
  | .hexadecimal => 'x'

/-! ## Writing -/

/-- The digits of a natural number. -/
def write (base : Base) (n : Nat) : List Char :=
  Nat.toDigits base.radix n

/-- The digits of an integer, with a sign if it is negative. -/
def writeInt (base : Base) (n : Int) : List Char :=
  if n < 0 then '-' :: base.write n.natAbs else base.write n.natAbs

/-! ## Reading -/

/-- A character as it takes part in a numeral: digits of any script as ASCII
    digits, wide blanks as spaces, every other wide character as a question mark. -/
def narrowed (c : Char) : Char :=
  if c.toNat < 127 then c
  else if isPadding c then ' '
  else match digitValue? c with
    | some d => Nat.digitChar d
    | none => '?'

/-- The value of a digit of the base. -/
def digit? (base : Base) (c : Char) : Option Nat :=
  let n := c.toLower.toNat
  let value :=
    if 48 ≤ n && n ≤ 57 then n - 48
    else if 97 ≤ n && n ≤ 122 then n - 87
    else 36
  if value < base.radix then some value else none

/-- The value of digits with single underscores between them, continuing the
    number `n`; `afterDigit` says whether a digit came directly before. -/
def digits? (base : Base) (n : Nat) (afterDigit : Bool) : List Char → Option Nat
  | [] => if afterDigit then some n else none
  | '_' :: rest => if afterDigit then digits? base n false rest else none
  | c :: rest => (base.digit? c).bind fun d => digits? base (n * base.radix + d) true rest

/-- A text without the marker of the base and one underscore behind it. -/
def dropMarker (base : Base) (s : List Char) : List Char :=
  match s with
  | '0' :: letter :: rest =>
    if letter.toLower = base.marker then
      match rest with
      | '_' :: tail => tail
      | _ => rest
    else s
  | _ => s

/-- The integer that a text denotes in the base. -/
def integer? (base : Base) (s : List Char) : Option Int :=
  match trim isPadding (s.map narrowed) with
  | '-' :: rest => (base.digits? 0 false (base.dropMarker rest)).map fun n => -(n : Int)
  | '+' :: rest => (base.digits? 0 false (base.dropMarker rest)).map (Int.ofNat ·)
  | rest => (base.digits? 0 false (base.dropMarker rest)).map (Int.ofNat ·)

/-- A text without a marker at its very start. -/
def withoutMarker (base : Base) (s : List Char) : List Char :=
  match s with
  | '0' :: letter :: rest => if letter.toLower = base.marker then rest else s
  | _ => s

/-- The integer that a text denotes in the base, whose marker may be there or
    not. -/
def read? (base : Base) (s : List Char) : Option Int :=
  base.integer? (base.withoutMarker s)

end Base
end StackCalc
