/-
  StackCalc.Config

  The settings of the calculator: how results are displayed, and the factors of
  two operations.
-/

import StackCalc.Cell

namespace StackCalc

/-- Display and conversion settings, read once and never changed by a program. -/
structure Config where
  showStackLevel : Bool
  monochrome : Bool
  conversionConstant : Float
  tipPercentage : Float
  showWarnings : Bool
  precision : Option Nat
deriving DecidableEq, Repr

/-- The settings where nothing is configured. -/
def Config.default : Config where
  showStackLevel := true
  monochrome := false
  conversionConstant := 1.0
  tipPercentage := 0.15
  showWarnings := true
  precision := none

end StackCalc
