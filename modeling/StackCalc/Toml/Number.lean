/-
  StackCalc.Toml.Number

  Integers in four bases, decimal numbers, infinities and the non-number.
-/

import StackCalc.Double.Numeral
import StackCalc.Toml.Quotation
import StackCalc.Toml.Value

namespace StackCalc
namespace Toml

/-- The ASCII digits. -/
def isAsciiDigit (c : Char) : Bool := c.isDigit

/-- The digits behind a digit, with single underscores between them, without the
    underscores. -/
def moreDigits (p : Char → Bool) : List Char → List Char × List Char
  | '_' :: d :: tail =>
    if p d then
      let (digits, left) := moreDigits p tail
      (d :: digits, left)
    else ([], '_' :: d :: tail)
  | d :: tail =>
    if p d then
      let (digits, left) := moreDigits p tail
      (d :: digits, left)
    else ([], d :: tail)
  | [] => ([], [])

/-- A run of digits with single underscores between them, without the underscores,
    where the first character must be a digit. -/
def digitRun (p : Char → Bool) : Reader (List Char)
  | [] => none
  | c :: rest =>
    if p c then
      let (digits, left) := moreDigits p rest
      some (c :: digits, left)
    else none

/-- An integer in a base with a marker, behind the zero. -/
def marked? (s : List Char) : Option (Value × List Char) :=
  let read (base : Nat) (p : Char → Bool) (rest : List Char) : Option (Value × List Char) :=
    (digitRun p rest).map fun (digits, left) =>
      (.integer (digits.foldl (fun n c => n * base + (hexValue? c).getD 0) 0 : Nat), left)
  match s with
  | '0' :: 'x' :: rest => read 16 (fun c => (hexValue? c).isSome) rest
  | '0' :: 'b' :: rest => read 2 (fun c => c = '0' || c = '1') rest
  | '0' :: 'o' :: rest => read 8 (fun c => '0' ≤ c && c ≤ '7') rest
  | _ => none

/-- The fraction behind a number, if there is one. -/
def fraction (s : List Char) : Option (List Char) × List Char :=
  match s with
  | '.' :: rest =>
    match digitRun isAsciiDigit rest with
    | some (digits, left) => (some digits, left)
    | none => (none, s)
  | _ => (none, s)

/-- The exponent behind a number, if there is one. -/
def exponent (s : List Char) : Option Int × List Char :=
  match s with
  | e :: rest =>
    if e = 'e' || e = 'E' then
      let (negative, unsigned) := Double.takeSign rest
      match digitRun isAsciiDigit unsigned with
      | some (digits, left) =>
        let n : Nat := Text.digitsValue digits
        (some (if negative then -(n : Int) else n), left)
      | none => (none, s)
    else (none, s)
  | [] => (none, s)

/-- A decimal integer from its digits. -/
def integer (negative : Bool) (digits : List Char) : Except Defect Value :=
  if Text.digitLimit < digits.length then .error (.longInteger digits.length)
  else
    let n : Nat := Text.digitsValue digits
    .ok (.integer (if negative then -(n : Int) else n))

/-- A decimal number: an integer unless it has a fraction or an exponent. -/
def decimal? (s : List Char) : Option (Except Defect Value × List Char) := do
  let (negative, unsigned) := Double.takeSign s
  let (whole, rest) ← match unsigned with
    | '0' :: rest => some (['0'], rest)
    | _ => digitRun isAsciiDigit unsigned
  let (digits, rest) := fraction rest
  let (power, rest) := exponent rest
  if digits.isNone && power.isNone then some (integer negative whole, rest)
  else
    let x := Double.Numeral.value ⟨negative, whole, digits.getD [], power.getD 0⟩
    some (.ok (.real x), rest)

/-- Infinity or the non-number, with or without a sign. -/
def specialNumber? (s : List Char) : Option (Value × List Char) :=
  let (negative, unsigned) := Double.takeSign s
  match unsigned with
  | 'i' :: 'n' :: 'f' :: rest =>
    some (.real (if negative then Double.negativeInfinity else Double.infinity), rest)
  | 'n' :: 'a' :: 'n' :: rest => some (.real Double.nan, rest)
  | _ => none

end Toml
end StackCalc
