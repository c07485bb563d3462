/-
  StackCalc.Evaluation.Block

  Conditionals and combinators.  A conditional only selects a branch; a combinator
  runs its block for every item, bottom first, on a stack of its own.
-/

import StackCalc.Evaluation.Call

namespace StackCalc

/-- Whether a comparison holds between the lower and the upper cell. -/
def Test.holds? (test : Test) (x y : Float) : Option Bool :=
  match test with
  | equal => some (x == y)
  | different => some (x != y)
  | greater => some (x > y)
  | less => some (x < y)
  | unknown _ => none

/-- Takes the two numbers that a conditional compares, and says whether its
    comparison holds. -/
def selectBranch (test : Test) (stack : Stack) : Except Error (Bool × Stack) :=
  match checkInputs test.keyword [.number, .number] stack, stack with
  | .error failure, _ => .error (.failure failure)
  | .ok (), .number y :: .number x :: rest =>
    match test.holds? x y with
    | some condition => .ok (condition, rest)
    | none => .error (.fault (.unknownKeyword test.keyword))
  | .ok (), _ => .error (.fault (.unknownKeyword test.keyword))

/-- How frames that are nested in a frame are run. -/
abbrev Nested := List Node → Stack → Machine → Reply Stack

/-- The error of a combinator, with the stack that it was given. -/
def combinatorError (combinator : Combinator) (place : Place) (stack : Stack) (cause : Cause) :
    Error :=
  .failure ⟨cause, some combinator.keyword, some place, some stack⟩

/-- Runs a block on every item, bottom first, each alone on a stack; `done` holds
    the results so far, last first. -/
def mapItems (run : Stack → Machine → Reply Stack) (blame : Cause → Error) (done : List Cell) :
    List Cell → Machine → Reply Stack
  | [], m => (.ok done, m)
  | item :: rest, m =>
    match run [item] m with
    | (.ok [result], m) => mapItems run blame (result :: done) rest m
    | (.ok left, m) => (.error (blame (.mapLeft left.length)), m)
    | (.error error, m) => (.error error, m)

/-- Runs a block on an accumulator and every item, bottom first, and keeps the top
    of what it leaves as the next accumulator; `done` holds the accumulators so
    far, last first. -/
def accumulate (run : Stack → Machine → Reply Stack) (emptied : Error) (done : List Cell)
    (accumulator : Cell) : List Cell → Machine → Reply Stack
  | [], m => (.ok (if done.isEmpty then [accumulator] else done), m)
  | item :: rest, m =>
    match run [item, accumulator] m with
    | (.ok (next :: _), m) => accumulate run emptied (next :: done) next rest m
    | (.ok [], m) => (.error emptied, m)
    | (.error error, m) => (.error error, m)

/-- Runs a block with the cell on top as its seed on all other cells: every
    accumulator, last first. -/
def accumulateStack (nested : Nested) (body : List Node) (combinator : Combinator) (place : Place)
    (stack : Stack) (m : Machine) : Reply Stack :=
  let blame := combinatorError combinator place stack
  match stack with
  | [] => (.error (blame (.noSeed combinator.keyword)), m)
  | seed :: items =>
    accumulate (nested body) (blame (.emptied combinator.keyword)) [] seed items.reverse m

/-- Runs a block for its combinator.  A map replaces every cell by its result, a
    fold leaves the last accumulator, a scan all of them without the seed. -/
def applyBlock (nested : Nested) (body : List Node) (combinator : Combinator) (place : Place)
    (stack : Stack) (m : Machine) : Reply Stack :=
  match combinator with
  | .map => mapItems (nested body) (combinatorError combinator place stack) [] stack.reverse m
  | .fold =>
    match accumulateStack nested body combinator place stack m with
    | (.ok results, m) => (.ok (results.take 1), m)
    | (.error error, m) => (.error error, m)
  | .scan =>
    match stack with
    | [_] => (.ok [], m)
    | _ => accumulateStack nested body combinator place stack m
  | .unknown keyword => (.error (.fault (.unknownKeyword keyword)), m)

end StackCalc
