/-
  StackCalc.HostCall

  Calls of functions of the host.  Such a function can hand back any value of the host,
  also one that is no cell.  What becomes of it is decided by the number of outputs in the
  stack effect: it takes the place of the stack, is thrown away, is pushed as it is, or has
  its elements pushed one by one.
-/

import StackCalc.Session

namespace StackCalc

/-! ## Values of the host -/

/-- A value of the host: nothing, a cell, a tuple, a stack (top first), or an object of any
    other class, with its elements if one can go through them. -/
inductive HostValue where
  | nothing
  | cell (c : Cell)
  | tuple (items : List HostValue)
  | stack (values : List HostValue)
  | object (className : String) (items : Option (List HostValue))
deriving Inhabited

namespace HostValue

/-- The name of the class of a value. -/
def className : HostValue → String
  | nothing => "NoneType"
  | cell (.number _) => "float"
  | cell (.text _) => "str"
  | tuple _ => "tuple"
  | stack _ => "Stack"
  | object name _ => name

/-- The elements of a value, if one can go through it.  A text has its characters, and a
    stack has two: the stack below its top, and the top. -/
def elements? : HostValue → Option (List HostValue)
  | nothing => none
  | cell (.number _) => none
  | cell (.text s) => some (s.toList.map fun c => .cell (.text c.toString))
  | tuple items => some items
  | stack [] => some [nothing, nothing]
  | stack (top :: below) => some [stack below, top]
  | object _ items => items

/-- The cell that a value is. -/
def cell? : HostValue → Option Cell
  | cell c => some c
  | _ => none

/-- The stack of cells that a value is. -/
def cells? : HostValue → Option Stack
  | stack values => values.mapM cell?
  | _ => none

/-- The fault of going through a value that has no elements. -/
def notIterable (value : HostValue) : Fault :=
  .operands ("\'" ++ value.className ++ "\' object is not iterable")

end HostValue

/-! ## What is pushed -/

/-- What is in the place of the stack behind a call on it that handed back a value. -/
def pushReturned (outputs : Option (List CellType)) (base : List HostValue)
    (returned : HostValue) : Except Fault HostValue :=
  match outputs with
  | none => .ok returned
  | some [] => .ok (.stack base)
  | some [_] => .ok (.stack (returned :: base))
  | some (_ :: _ :: _) =>
    match returned.elements? with
    | some items => .ok (.stack (items.foldl (fun base item => item :: base) base))
    | none => .error returned.notIterable

/-- The outcome of a call that left some cells of the stack. -/
def concluded (outputs : Option (List CellType)) (token : String) (base : Stack)
    (result : Except Trouble HostValue) : Except Error HostValue :=
  match result with
  | .ok returned => (pushReturned outputs (base.map .cell) returned).mapError .fault
  | .error trouble => .error (trouble.error token)

/-! ## Operands -/

/-- Takes cells off a stack one by one, each in front of the operands that were taken
    before. -/
def popOperands : Nat → List Cell → Stack → List Cell × Stack
  | 0, args, base => (args, base)
  | count + 1, args, cell :: base => popOperands count (cell :: args) base
  | _ + 1, args, [] => (args, [])

/-- A call on operands of these types, top first.  Without operands nothing is checked; one
    or two are taken off the stack at once, and more in a loop.  A stack that passes the check
    has enough cells, so that the last case of each match does not occur. -/
def callOnOperands (types : List CellType) (outputs : Option (List CellType))
    (call : List Cell → Except Trouble HostValue) (token : String) (stack : Stack) :
    Except Error HostValue :=
  match types with
  | [] => concluded outputs token stack (call [])
  | [t] =>
    match checkInputs token [t] stack, stack with
    | .error failure, _ => .error (.failure failure)
    | .ok (), a :: base => concluded outputs token base (call [a])
    | .ok (), [] => .ok .nothing
  | [t, t'] =>
    match checkInputs token [t, t'] stack, stack with
    | .error failure, _ => .error (.failure failure)
    | .ok (), a :: b :: base => concluded outputs token base (call [b, a])
    | .ok (), _ => .ok .nothing
  | types =>
    match checkInputs token types stack with
    | .error failure => .error (.failure failure)
    | .ok () =>
      let (args, base) := popOperands types.length [] stack
      concluded outputs token base (call args)

/-- A call of a function of the host by a name.  The function is given its operands in the
    order of the parameters, or the whole stack, top first. -/
def callHost (effect : Effect) (call : List Cell → Except Trouble HostValue) (token : String)
    (stack : Stack) : Except Error HostValue :=
  match effect.inputs with
  | none => concluded effect.outputs token stack (call stack)
  | some types => callOnOperands types effect.outputs call token stack

/-! ## Registered functions -/

/-- The cells that a value gives to the stack.  What is no cell or no stack of cells is not
    followed any further. -/
def outputCells (outputs : Option (List CellType)) (returned : HostValue) :
    Except Trouble (List Cell) :=
  let kept (cells : Option (List Cell)) : Except Trouble (List Cell) :=
    cells.elim Native.mismatch .ok
  match outputs with
  | none => kept returned.cells?
  | some [] => .ok []
  | some [_] => kept (returned.cell?.map fun c => [c])
  | some (_ :: _ :: _) =>
    match returned.elements? with
    | some items => kept (items.mapM HostValue.cell?)
    | none => .error (.fault returned.notIterable)

/-- A function of the host with its signature, as it is registered. -/
def Session.HostFunction.calling (signature : Signature)
    (call : List Cell → Except Trouble HostValue) : Session.HostFunction where
  signature := signature
  body := fun args =>
    match call args, signature.effect with
    | .error trouble, _ => .error trouble
    | .ok returned, .ok effect => outputCells effect.outputs returned
    | .ok _, .error _ => Native.mismatch

end StackCalc
