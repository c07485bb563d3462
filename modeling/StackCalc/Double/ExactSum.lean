/-
  StackCalc.Double.ExactSum

  The correctly rounded sum of a list of doubles.  The running sum is kept as a
  list of partial sums that do not overlap and whose exact sum is that of the
  items so far; only the final addition of the partials rounds.  Infinities and
  non-numbers are summed apart.
-/

import StackCalc.Double.Basic

namespace StackCalc
namespace Double
namespace ExactSum

/-- Why a sum of doubles has no value. -/
inductive Trouble where
  | overflow
  | oppositeInfinities
deriving DecidableEq, Repr

/-- The rounded sum of two doubles and the error of the rounding. -/
def addExactly (x y : Float) : Float × Float :=
  let (large, small) := if x.abs < y.abs then (y, x) else (x, y)
  let high := large + small
  (high, small - (high - large))

/-- Adds an item to partial sums, smallest first: every partial takes part in one
    exact addition, whose error stays behind if it is not zero. -/
def absorb (x : Float) : List Float → List Float × Float
  | [] => ([], x)
  | y :: rest =>
    let (high, low) := addExactly x y
    let (kept, total) := absorb high rest
    (if low != 0 then low :: kept else kept, total)

/-- The state of a summation: partial sums, smallest first, the sum of the items
    that are not finite, and the sum of the infinities among them. -/
structure State where
  partials : List Float
  special : Float
  infinities : Float

/-- No item yet. -/
def State.empty : State := ⟨[], 0.0, 0.0⟩

/-- One more item. -/
def State.add (state : State) (item : Float) : Except Trouble State :=
  let (kept, total) := absorb item state.partials
  if total != 0 then
    if isFinite total then .ok { state with partials := kept ++ [total] }
    else if isFinite item then .error .overflow
    else .ok
      { partials := []
        special := state.special + item
        infinities := if isInfinite item then state.infinities + item else state.infinities }
  else .ok { state with partials := kept }

/-- Adds partial sums, largest first, as long as the additions are exact: the sum,
    the error of the last addition, and the partials that are left. -/
def collapse (high : Float) : List Float → Float × Float × List Float
  | [] => (high, 0.0, [])
  | y :: rest =>
    let sum := high + y
    let low := y - (sum - high)
    if low != 0 then (sum, low, rest) else collapse sum rest

/-- The sum of the partials, rounded once.  An error of exactly half a step is
    rounded again where the next partial says that the exact sum lies beyond the
    half. -/
def roundedTotal (partials : List Float) : Float :=
  match partials.reverse with
  | [] => 0.0
  | largest :: rest =>
    match collapse largest rest with
    | (high, low, next :: _) =>
      if (low < 0 && next < 0) || (low > 0 && next > 0) then
        let twice := low * 2.0
        let moved := high + twice
        if twice == moved - high then moved else high
      else high
    | (high, _, []) => high

/-- The sum at the end. -/
def State.total (state : State) : Except Trouble Float :=
  if state.special != 0 then
    if isNaN state.infinities then .error .oppositeInfinities else .ok state.special
  else .ok (roundedTotal state.partials)

end ExactSum

/-- The correctly rounded sum of a list of doubles, taken in order. -/
def exactSum (items : List Float) : Except ExactSum.Trouble Float :=
  (items.foldlM ExactSum.State.add ExactSum.State.empty).bind ExactSum.State.total

end Double
end StackCalc
