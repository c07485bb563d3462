/-
  StackCalc.Operation

  Operations by how they work.  A native operation is a function from the cells it
  takes to the cells it pushes, with its stack effect; most are built by one of the
  constructors below from a function on numbers or texts.  Two more show a cell and
  draw a random number.  Commands work on the whole stack, on the memory slots or
  with the configured factors.
-/

import StackCalc.Error

namespace StackCalc

/-- Why an operation has no result.  A refusal is blamed on the operation at once, a
    problem only by the step that ran it. -/
inductive Trouble where
  | refused (refusal : Refusal)
  | problem (problem : DomainProblem)
  | fault (fault : Fault)
deriving DecidableEq, Repr

/-- The error of an operation that was called by a name. -/
def Trouble.error (name : String) : Trouble → Error
  | refused refusal => .failure (.named name (.domain (.undefined name refusal)))
  | problem p => .failure (.bare (.domain p))
  | fault f => .fault f

/-- An operation on cells.  The body is given the cells it takes, deepest first, and
    gives the cells to push, in that order; an operation on the whole stack is given
    the stack, and one that replaces it gives the new stack, both top first. -/
structure Native where
  effect : Effect
  body : List Cell → Except Trouble (List Cell)

/-- What a name of the function table stands for. -/
inductive Function where
  | native (operation : Native)
  | print
  | random

/-- The stack effect of a function. -/
def Function.effect : Function → Effect
  | native operation => operation.effect
  | print => ⟨some [.any], some []⟩
  | random => ⟨some [.number], some [.number]⟩

namespace Native

/-- The outcome for cells that the stack effect rules out. -/
def mismatch : Except Trouble (List Cell) := .error (.fault (.operands ""))

/-- The outcome of a real function. -/
def defined (x : Except Double.Undefined Float) : Except Trouble Float :=
  match x with
  | .ok y => .ok y
  | .error reason => .error (.refused (.undefined reason))

/-- A constant. -/
def constant (x : Float) : Native where
  effect := ⟨some [], some [.number]⟩
  body := fun
    | [] => .ok [.number x]
    | _ => mismatch

/-- A function of one number. -/
def unary (f : Float → Except Trouble Float) : Native where
  effect := ⟨some [.number], some [.number]⟩
  body := fun
    | [.number x] => (f x).map fun y => [.number y]
    | _ => mismatch

/-- A function of two numbers, the deeper one first. -/
def binary (f : Float → Float → Except Trouble Float) : Native where
  effect := ⟨some [.number, .number], some [.number]⟩
  body := fun
    | [.number x, .number y] => (f x y).map fun z => [.number z]
    | _ => mismatch

/-- A function from a number to a text. -/
def numeral (f : Float → Except Trouble String) : Native where
  effect := ⟨some [.number], some [.text]⟩
  body := fun
    | [.number x] => (f x).map fun s => [.text s]
    | _ => mismatch

/-- A function from any cell to a number. -/
def value (f : Cell → Except Trouble Float) : Native where
  effect := ⟨some [.cell], some [.number]⟩
  body := fun
    | [c] => (f c).map fun x => [.number x]
    | _ => mismatch

/-- A function from any cell to a text. -/
def renumeral (f : Cell → Except Trouble String) : Native where
  effect := ⟨some [.cell], some [.text]⟩
  body := fun
    | [c] => (f c).map fun s => [.text s]
    | _ => mismatch

/-- A function of three numbers with four results. -/
def quadruple (f : Float → Float → Float → Except Trouble (List Float)) : Native where
  effect := ⟨some [.number, .number, .number],
    some [.number, .number, .number, .number]⟩
  body := fun
    | [.number x, .number y, .number z] => (f x y z).map fun results => results.map .number
    | _ => mismatch

/-- A function from any cell to three numbers. -/
def triple (f : Cell → Except Trouble (Float × Float × Float)) : Native where
  effect := ⟨some [.cell], some [.number, .number, .number]⟩
  body := fun
    | [c] => (f c).map fun (x, y, z) => [.number x, .number y, .number z]
    | _ => mismatch

/-- A function of three numbers with a text as its result. -/
def joined (f : Float → Float → Float → Except Trouble String) : Native where
  effect := ⟨some [.number, .number, .number], some [.text]⟩
  body := fun
    | [.number x, .number y, .number z] => (f x y z).map fun s => [.text s]
    | _ => mismatch

/-- The exchange of the two cells on top. -/
def exchange : Native where
  effect := ⟨some [.any, .any], some [.any, .any]⟩
  body := fun
    | [x, y] => .ok [y, x]
    | _ => mismatch

/-- The doubling of the cell on top. -/
def duplicate : Native where
  effect := ⟨some [.any], some [.any, .any]⟩
  body := fun
    | [x] => .ok [x, x]
    | _ => mismatch

/-- The removal of the cell on top. -/
def discard : Native where
  effect := ⟨some [.any], some []⟩
  body := fun
    | [_] => .ok []
    | _ => mismatch

end Native

/-! ## Commands -/

/-- The memory slots. -/
inductive Slot where
  | a
  | b
  | c
deriving DecidableEq, Repr

/-- How a whole stack of numbers becomes one number. -/
inductive Reduction where
  | sum
  | product
  | minimum
  | maximum
  | average
deriving DecidableEq, Repr

/-- The factors that a number on top can be multiplied by. -/
inductive Factor where
  | tip
  | fixedTip
  | conversion
deriving DecidableEq, Repr

/-- Operations that need more than a few cells: the whole stack, the memory slots,
    or the configuration. -/
inductive Command where
  | clear
  | roll
  | rotate
  | reduce (reduction : Reduction)
  | storeSlot (slot : Slot)
  | recallSlot (slot : Slot)
  | scale (factor : Factor)
deriving DecidableEq, Repr

/-- The numbers of a stack; nothing if it holds a text. -/
def numbers? (stack : Stack) : Option (List Float) :=
  stack.mapM fun
    | .number x => some x
    | .text _ => none

/-- The least number, of equal ones the first. -/
def minimumOf (first : Float) (rest : List Float) : Float :=
  rest.foldl (fun least x => if x < least then x else least) first

/-- The greatest number, of equal ones the first. -/
def maximumOf (first : Float) (rest : List Float) : Float :=
  rest.foldl (fun greatest x => if x > greatest then x else greatest) first

/-- The outcome of a summation. -/
def summed (x : Except Double.ExactSum.Trouble Float) : Except Fault Float :=
  match x with
  | .ok y => .ok y
  | .error trouble => .error (.sum trouble)

/-- One number from a list of numbers that is not empty, top first. -/
def Reduction.apply (reduction : Reduction) (first : Float) (rest : List Float) :
    Except Fault Float :=
  match reduction with
  | sum => summed (Double.exactSum (first :: rest))
  | product => .ok ((first :: rest).foldl (· * ·) 1.0)
  | minimum => .ok (minimumOf first rest)
  | maximum => .ok (maximumOf first rest)
  | average =>
    (summed (Double.exactSum (first :: rest))).map (· / Double.ofNat (rest.length + 1))

end StackCalc
