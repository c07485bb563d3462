/-
  StackCalc.Toml.Value

  The values of a TOML document, and how a value is shown in a message.
-/

import StackCalc.Double.Decimal
import StackCalc.Text.DecimalDigit
import StackCalc.Text.Quoted

namespace StackCalc
namespace Toml

/-- A day of the calendar. -/
structure Day where
  year : Nat
  month : Nat
  day : Nat
deriving DecidableEq, Repr

/-- A time of the day, to the microsecond. -/
structure TimeOfDay where
  hour : Nat
  minute : Nat
  second : Nat
  microsecond : Nat
deriving DecidableEq, Repr

/-- A value: text, numbers, truth values, dates and times (with their offset from
    universal time in minutes, if they have one), arrays, and tables in the order
    of their keys. -/
inductive Value where
  | text (s : String)
  | integer (n : Int)
  | real (x : Float)
  | truth (b : Bool)
  | date (day : Day)
  | time (clock : TimeOfDay)
  | moment (day : Day) (clock : TimeOfDay) (offset : Option Int)
  | array (items : List Value)
  | table (entries : List (String × Value))

/-- Whether a value is an array or a table. -/
def Value.isContainer : Value → Bool
  | .array _ => true
  | .table _ => true
  | _ => false

/-! ## Showing -/

/-- The parts of a day, as arguments. -/
def Day.arguments (day : Day) : List String :=
  [toString day.year, toString day.month, toString day.day]

/-- The parts of a time, as arguments, without zeros at the end for the seconds. -/
def TimeOfDay.arguments (time : TimeOfDay) : List String :=
  [toString time.hour, toString time.minute]
    ++ (if time.microsecond ≠ 0 then [toString time.second, toString time.microsecond]
        else if time.second ≠ 0 then [toString time.second]
        else [])

/-- An offset from universal time, as an argument. -/
def showOffset (minutes : Int) : String :=
  if minutes = 0 then "tzinfo=datetime.timezone.utc"
  else
    let span :=
      if minutes < 0 then "days=-1, seconds=" ++ toString (86400 + minutes * 60)
      else "seconds=" ++ toString (minutes * 60)
    "tzinfo=datetime.timezone(datetime.timedelta(" ++ span ++ "))"

namespace Value

mutual

/-- A value as it is shown in a message. -/
def shown : Value → String
  | .text s => Text.quote s
  | .integer n => toString n
  | .real x => Double.shortest x
  | .truth b => if b then "True" else "False"
  | .date day => "datetime.date(" ++ ", ".intercalate day.arguments ++ ")"
  | .time clock => "datetime.time(" ++ ", ".intercalate clock.arguments ++ ")"
  | .moment day clock offset =>
    "datetime.datetime("
      ++ ", ".intercalate (day.arguments ++ clock.arguments ++ (offset.map showOffset).toList)
      ++ ")"
  | .array items => "[" ++ ", ".intercalate (shownAll items) ++ "]"
  | .table entries => "\x7b" ++ ", ".intercalate (shownEntries entries) ++ "\x7d"

/-- All values of an array. -/
def shownAll : List Value → List String
  | [] => []
  | value :: rest => shown value :: shownAll rest

/-- All entries of a table. -/
def shownEntries : List (String × Value) → List String
  | [] => []
  | (key, value) :: rest => (Text.quote key ++ ": " ++ shown value) :: shownEntries rest

end

mutual

/-- Whether a value can be shown: all its integers can. -/
def isShowable : Value → Bool
  | .integer n => Text.isShowable n
  | .array items => areShowable items
  | .table entries => entriesAreShowable entries
  | _ => true

/-- Whether all values of an array can be shown. -/
def areShowable : List Value → Bool
  | [] => true
  | value :: rest => isShowable value && areShowable rest

/-- Whether all values of a table can be shown. -/
def entriesAreShowable : List (String × Value) → Bool
  | [] => true
  | (_, value) :: rest => isShowable value && entriesAreShowable rest

end

end Value
end Toml
end StackCalc
