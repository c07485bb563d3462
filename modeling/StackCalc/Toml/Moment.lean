/-
  StackCalc.Toml.Moment

  Days, times of day, and both together with or without an offset from universal
  time.
-/

import StackCalc.Text.DecimalDigit
import StackCalc.Toml.Number

namespace StackCalc
namespace Toml

/-- A fixed number of ASCII digits. -/
def fixedDigits? (count : Nat) (s : List Char) : Option (Nat × List Char) :=
  let digits := s.take count
  if digits.length = count && digits.all isAsciiDigit then
    some (Text.digitsValue digits, s.drop count)
  else none

/-- Two digits within bounds. -/
def bounded? (low high : Nat) (s : List Char) : Option (Nat × List Char) :=
  match fixedDigits? 2 s with
  | some (n, rest) => if low ≤ n && n ≤ high then some (n, rest) else none
  | none => none

/-- A time of day; of its fraction of a second six digits count. -/
def timeOfDay? (s : List Char) : Option (TimeOfDay × List Char) := do
  let (hour, s) ← bounded? 0 23 s
  let s ← expect? [':'] s
  let (minute, s) ← bounded? 0 59 s
  let s ← expect? [':'] s
  let (second, s) ← bounded? 0 59 s
  match s with
  | '.' :: rest =>
    let digits := rest.takeWhile isAsciiDigit
    if digits.isEmpty then some (⟨hour, minute, second, 0⟩, s)
    else
      let six := (digits ++ List.replicate 6 '0').take 6
      some (⟨hour, minute, second, Text.digitsValue six⟩, rest.drop digits.length)
  | _ => some (⟨hour, minute, second, 0⟩, s)

/-- The offset from universal time behind a time, in minutes, if there is one. -/
def offset (s : List Char) : Option Int × List Char :=
  let read (sign : Int) (rest : List Char) : Option (Int × List Char) := do
    let (hour, rest) ← bounded? 0 23 rest
    let rest ← expect? [':'] rest
    let (minute, rest) ← bounded? 0 59 rest
    some (sign * (hour * 60 + minute : Nat), rest)
  match s with
  | 'Z' :: rest => (some 0, rest)
  | 'z' :: rest => (some 0, rest)
  | '+' :: rest => match read 1 rest with
    | some (minutes, tail) => (some minutes, tail)
    | none => (none, s)
  | '-' :: rest => match read (-1) rest with
    | some (minutes, tail) => (some minutes, tail)
    | none => (none, s)
  | _ => (none, s)

/-- How many days a month has. -/
def daysIn (year month : Nat) : Nat :=
  if month = 2 then
    if year % 4 = 0 && (year % 100 ≠ 0 || year % 400 = 0) then 29 else 28
  else if month = 4 || month = 6 || month = 9 || month = 11 then 30
  else 31

/-- The text of a day, in the form of one; whether it is in the calendar is another
    question. -/
def dayText? (s : List Char) : Option (Day × List Char) := do
  let (year, s) ← fixedDigits? 4 s
  let s ← expect? ['-'] s
  let (month, s) ← bounded? 1 12 s
  let s ← expect? ['-'] s
  let (day, s) ← bounded? 1 31 s
  some (⟨year, month, day⟩, s)

/-- Whether a day is in the calendar. -/
def Day.isValid (day : Day) : Bool :=
  1 ≤ day.year && day.day ≤ daysIn day.year day.month

/-- What follows a day: a time and its offset, if there is a time. -/
def dayTail (s : List Char) : Option (TimeOfDay × Option Int) × List Char :=
  match s with
  | c :: rest =>
    if c = 'T' || c = 't' || c = ' ' then
      match timeOfDay? rest with
      | some (time, tail) =>
        let (minutes, tail) := offset tail
        (some (time, minutes), tail)
      | none => (none, s)
    else (none, s)
  | [] => (none, s)

/-- A day, with or without a time, in the form of one: nothing if it is none, and no
    value if it is not in the calendar. -/
def moment? (s : List Char) : Option (Option Value × List Char) :=
  (dayText? s).map fun (day, rest) =>
    match dayTail rest with
    | (some (time, minutes), tail) =>
      (if day.isValid then some (.moment day time minutes) else none, tail)
    | (none, tail) => (if day.isValid then some (.date day) else none, tail)

/-- A number, a date or a time; the longer forms are tried first. -/
def scalar (s : List Char) : Except Defect (Value × List Char) :=
  match moment? s with
  | some (value, rest) => (required value).map (·, rest)
  | none =>
    match timeOfDay? s, marked? s, decimal? s with
    | some (time, rest), _, _ => .ok (.time time, rest)
    | none, some found, _ => .ok found
    | none, none, some (value, rest) => value.map (·, rest)
    | none, none, none => required (specialNumber? s)

end Toml
end StackCalc
