/-
  StackCalc.Operation.Builtin

  The built-in operations and their names: functions, commands, and other names
  for both.
-/

import StackCalc.Operation.Conversion
import StackCalc.Table

namespace StackCalc
namespace Builtin

open Native

/-- A function without exceptions. -/
def total (f : Float → Float) (x : Float) : Except Trouble Float := .ok (f x)

/-- A function of two numbers without exceptions. -/
def total₂ (f : Float → Float → Float) (x y : Float) : Except Trouble Float := .ok (f x y)

/-- A real function that is undefined for some numbers. -/
def partly (f : Float → Except Double.Undefined Float) (x : Float) : Except Trouble Float :=
  defined (f x)

/-- A real function of two numbers that is undefined for some of them. -/
def partly₂ (f : Float → Float → Except Double.Undefined Float) (x y : Float) :
    Except Trouble Float :=
  defined (f x y)

/-- The whole part of a number that can be counted with. -/
def countable (purpose : Purpose) (x : Float) : Except Trouble Nat :=
  if Double.isFinite x && !(x < 0) then .ok (Double.wholePart x)
  else .error (.problem (.notCountable purpose x))

/-- The factorial of the whole part, as far as it is a double. -/
def factorial (x : Float) : Except Trouble Float :=
  (countable .factorial x).bind fun n =>
    if n > 170 then .error (.problem (.factorialTooLarge n))
    else .ok (Double.ofNat (Double.factorial n))

/-- The greatest common divisor of the whole parts. -/
def commonDivisor (x y : Float) : Except Trouble Float :=
  (countable .commonDivisor x).bind fun _ =>
    (countable .commonDivisor y).bind fun _ => defined (Double.gcd x y)

/-- The lesser of two numbers; the deeper one unless the other is less. -/
def least (x y : Float) : Float := if y < x then y else x

/-- The greater of two numbers; the deeper one unless the other is greater. -/
def greatest (x y : Float) : Float := if y > x then y else x

/-- Both roots of `a x² + b x + c`, each as its real and its imaginary part. -/
def roots (a b c : Float) : Except Trouble (List Float) :=
  let discriminant := b * b - 4.0 * a * c
  let denominator := 2.0 * a
  if discriminant < 0 then
    (defined (Double.squareRoot (-discriminant))).map fun root =>
      let re := Double.divide (-b) denominator
      let im := Double.divide root denominator
      [re, im, re, -im]
  else
    (defined (Double.squareRoot discriminant)).map fun root =>
      [Double.divide (-b + root) denominator, 0.0,
       Double.divide (-b - root) denominator, 0.0]

/-- The functions, by name. -/
def functions : List (String × Function) :=
  [ -- stack
    ("swap", .native exchange),
    ("dup", .native duplicate),
    ("drop", .native discard),
    -- arithmetic
    ("add", .native (binary (total₂ (· + ·)))),
    ("sub", .native (binary (total₂ (· - ·)))),
    ("mul", .native (binary (total₂ (· * ·)))),
    ("div", .native (binary (total₂ Double.divide))),
    ("inc", .native (unary (total (· + 1.0)))),
    ("dec", .native (unary (total (· - 1.0)))),
    ("chs", .native (unary (total (- ·)))),
    ("abs", .native (unary (total Float.abs))),
    ("inv", .native (unary (total (Double.divide 1.0)))),
    ("sqrt", .native (unary (partly Double.squareRoot))),
    ("throot", .native (binary (partly₂ fun x y => Double.power x (Double.divide 1.0 y)))),
    ("pow", .native (binary (partly₂ Double.power))),
    ("mod", .native (binary (total₂ Double.remainder))),
    ("min", .native (binary (total₂ least))),
    ("max", .native (binary (total₂ greatest))),
    ("avg", .native (binary (total₂ fun x y => (x + y) / 2.0))),
    ("round", .native (unary (total Double.round))),
    ("fact", .native (unary factorial)),
    ("gcd", .native (binary commonDivisor)),
    ("proot", .native (quadruple roots)),
    -- constants
    ("pi", .native (constant Double.pi)),
    ("e", .native (constant Double.e)),
    ("g", .native (constant 9.80665)),
    -- trigonometry and logarithms
    ("deg_rad", .native (unary (total Double.radians))),
    ("rad_deg", .native (unary (total Double.degrees))),
    ("sin", .native (unary (partly (Double.onFinite Float.sin)))),
    ("asin", .native (unary (partly (Double.onUnitInterval Float.asin)))),
    ("cos", .native (unary (partly (Double.onFinite Float.cos)))),
    ("acos", .native (unary (partly (Double.onUnitInterval Float.acos)))),
    ("tan", .native (unary (partly (Double.onFinite Float.tan)))),
    ("atan", .native (unary (total Float.atan))),
    ("log2", .native (unary (partly (Double.onPositive Float.log2)))),
    ("log10", .native (unary (partly (Double.onPositive Float.log10)))),
    ("logn", .native (binary (partly₂ Double.logarithm))),
    ("ln", .native (unary (partly (Double.onPositive Float.log)))),
    -- random numbers
    ("rand", .random),
    -- conversions
    ("dec_hex", .native (numeral (Conversion.writeNumber .hexadecimal .hexadecimal))),
    ("dec_bin", .native (numeral (Conversion.writeNumber .binary .binary))),
    ("hex_dec", .native (value (Conversion.valueIn .hexadecimal))),
    ("bin_dec", .native (value (Conversion.valueIn .binary))),
    ("hex_bin", .native (renumeral (Conversion.respell .hexadecimal .binary))),
    ("bin_hex", .native (renumeral (Conversion.respell .binary .hexadecimal))),
    ("c_f", .native (unary (total fun x => x * 9.0 / 5.0 + 32.0))),
    ("f_c", .native (unary (total fun x => (x - 32.0) * 5.0 / 9.0))),
    ("mi_km", .native (unary (total (· * 1.609344)))),
    ("km_mi", .native (unary (total (· / 1.609344)))),
    ("ft_m", .native (unary (total (· / 3.281)))),
    ("m_ft", .native (unary (total (· * 3.281)))),
    ("hex_rgb", .native (triple Conversion.channels)),
    ("rgb_hex", .native (joined Conversion.colour)),
    -- output
    ("pln", .print) ]

/-- The commands, by name. -/
def commands : List (String × Command) :=
  [ ("cls", .clear),
    ("roll", .roll),
    ("rot", .rotate),
    ("sum_all", .reduce .sum),
    ("prod_all", .reduce .product),
    ("min_all", .reduce .minimum),
    ("max_all", .reduce .maximum),
    ("avg_all", .reduce .average),
    ("sa", .storeSlot .a), ("_a", .recallSlot .a),
    ("sb", .storeSlot .b), ("_b", .recallSlot .b),
    ("sc", .storeSlot .c), ("_c", .recallSlot .c),
    ("tip", .scale .tip),
    ("tip+", .scale .fixedTip),
    ("a_b", .scale .conversion) ]

/-- Other names of functions and commands. -/
def aliases : List (String × String) :=
  [ ("+", "add"), ("-", "sub"), ("x", "mul"), ("*", "mul"), ("/", "div"),
    ("++", "inc"), ("--", "dec"), ("^", "pow"), ("exp", "pow"), ("%", "mod"),
    ("!", "fact"), ("int", "round"), ("log", "log10"), ("C_F", "c_f"), ("F_C", "f_c"),
    ("clr", "cls"), ("+_", "sum_all"), ("x_", "prod_all"), ("min_", "min_all"),
    ("max_", "max_all"), ("avg_", "avg_all") ]

/-- The names of the combinators. -/
def combinators : List String := ["fold", "map", "scan"]

/-- The name that a name stands for: itself unless it is another name. -/
def target (name : String) : String :=
  (Table.find? name aliases).getD name

end Builtin
end StackCalc
