/-
  StackCalc.Evaluation.Call

  Running a single function or command.  The depth of the stack and the types of
  its cells are checked before anything is taken, and a function sees no cell but
  the ones it takes.
-/

import StackCalc.Machine

namespace StackCalc

/-- The first cell that is not of the type asked for. -/
def firstMismatch? (position : Nat) : List CellType → List Cell → Option (Nat × CellType × Cell)
  | expected :: types, cell :: cells =>
    if expected.accepts cell then firstMismatch? (position + 1) types cells
    else some (position, expected, cell)
  | _, _ => none

/-- Checks the depth of the stack and then the types of its cells, top first,
    before anything is taken. -/
def checkInputs (name : String) (types : List CellType) (stack : Stack) : Except Failure Unit :=
  let available := (stack.take types.length).length
  if available < types.length then
    .error (.onStack name stack (.tooFew name types.length available))
  else
    match firstMismatch? 1 types stack with
    | some (position, expected, cell) =>
      .error (.onStack name stack (.wrongType name expected position cell))
    | none => .ok ()

/-- Refuses a stack of fewer than a number of cells. -/
def require (name : String) (count : Nat) (stack : Stack) : Except Failure Unit :=
  if stack.length < count then
    .error (.onStack name stack (.tooFew name count stack.length))
  else .ok ()

/-- The stack behind an operation on cells, called by a name. -/
def applyNative (operation : Native) (name : String) (stack : Stack) : Except Error Stack :=
  let push (base reply : List Cell) : Stack :=
    match operation.effect.outputs with
    | some _ => reply.reverse ++ base
    | none => reply
  match operation.effect.inputs with
  | none =>
    match operation.body stack with
    | .ok reply => .ok (push stack reply)
    | .error trouble => .error (trouble.error name)
  | some types =>
    match checkInputs name types stack with
    | .error failure => .error (.failure failure)
    | .ok () =>
      match operation.body (stack.take types.length).reverse with
      | .ok reply => .ok (push (stack.drop types.length) reply)
      | .error trouble => .error (trouble.error name)

/-- Runs a function that was called by a name. -/
def applyFunction (function : Function) (name : String) (stack : Stack) (m : Machine) :
    Reply Stack :=
  match function with
  | .native operation => (applyNative operation name stack, m)
  | .print =>
    match checkInputs name [.any] stack, stack with
    | .error failure, _ => (.error (.failure failure), m)
    | .ok (), cell :: rest => (.ok rest, m.note (.print (cell.shown none ++ "\n")))
    | .ok (), [] => (.ok [], m)
  | .random =>
    match checkInputs name [.number] stack, stack with
    | .error failure, _ => (.error (.failure failure), m)
    | .ok (), .number x :: rest =>
      match Builtin.countable .random x with
      | .error trouble => (.error (trouble.error name), m)
      | .ok n =>
        let (fraction, m) := m.draw
        (.ok (.number (Double.truncated (Double.ofNat n * fraction)) :: rest), m)
    | .ok (), _ => (.ok stack, m)

/-- The factor that a number is multiplied by. -/
def Factor.of (config : Config) : Factor → Float
  | tip => config.tipPercentage
  | fixedTip => 0.20
  | conversion => config.conversionConstant

/-- Runs a command that was called by a name. -/
def applyCommand (config : Config) (command : Command) (name : String) (stack : Stack)
    (m : Machine) : Reply Stack :=
  match command with
  | .clear => (.ok [], m)
  | .roll =>
    match require name 1 stack with
    | .error failure => (.error (.failure failure), m)
    | .ok () => (.ok (stack.drop 1 ++ stack.take 1), m)
  | .rotate =>
    match require name 1 stack with
    | .error failure => (.error (.failure failure), m)
    | .ok () =>
      (.ok (stack.drop (stack.length - 1) ++ stack.take (stack.length - 1)), m)
  | .reduce reduction =>
    match require name 1 stack with
    | .error failure => (.error (.failure failure), m)
    | .ok () =>
      match checkInputs name (List.replicate stack.length .number) stack with
      | .error failure => (.error (.failure failure), m)
      | .ok () =>
        match numbers? stack with
        | some (first :: rest) =>
          match reduction.apply first rest with
          | .ok x => (.ok [.number x], m)
          | .error fault => (.error (.fault fault), m)
        | _ => (.ok stack, m)
  | .storeSlot slot =>
    match require name 1 stack, stack with
    | .error failure, _ => (.error (.failure failure), m)
    | .ok (), cell :: rest => (.ok rest, { m with memory := m.memory.setSlot slot cell })
    | .ok (), [] => (.ok [], m)
  | .recallSlot slot => (.ok (m.memory.slot slot :: stack), m)
  | .scale factor =>
    match checkInputs name [.number] stack, stack with
    | .error failure, _ => (.error (.failure failure), m)
    | .ok (), .number x :: rest => (.ok (.number (x * factor.of config) :: rest), m)
    | .ok (), _ => (.ok stack, m)

end StackCalc
