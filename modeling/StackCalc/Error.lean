/-
  StackCalc.Error

  Everything that can go wrong.  A `Cause` says what happened in the terms of the
  program that is run; a `Failure` adds where it happened, and its `blamedOn` fills
  in only what is still missing, so that the innermost step keeps the blame.  A
  `Fault` is trouble of the machinery itself, which no program text explains.
-/

import StackCalc.Double.ExactSum
import StackCalc.Error.Cause
import StackCalc.Files

namespace StackCalc

/-! ## Failures -/

/-- A cause, the word it is blamed on, where that word stands, and the stack before
    the step that failed. -/
structure Failure where
  cause : Cause
  token : Option String
  place : Option Place
  stack : Option Stack
deriving DecidableEq, Repr

namespace Failure

/-- A failure of which nothing but the cause is known. -/
def bare (cause : Cause) : Failure := ⟨cause, none, none, none⟩

/-- A failure that names the word in question. -/
def named (token : String) (cause : Cause) : Failure := ⟨cause, some token, none, none⟩

/-- A failure of a word on a stack. -/
def onStack (token : String) (stack : Stack) (cause : Cause) : Failure :=
  ⟨cause, some token, none, some stack⟩

/-- A fault of a text. -/
def ofSource (fault : SourceError) : Failure :=
  ⟨.source fault, some fault.token, none, none⟩

/-- The failure with what is still missing filled in from a step: its word, its
    place, and the stack before it. -/
def blamedOn (failure : Failure) (token : String) (place : Option Place) (stack : Stack) :
    Failure :=
  { failure with
    token := failure.token.or (some token)
    place := failure.place.or place
    stack := failure.stack.or (some stack) }

end Failure

/-! ## Faults -/

/-- Trouble of the machinery.  Of an integer with too many digits the digits are counted
    where it is read, but not where it is to be shown. -/
inductive Fault where
  | sum (trouble : Double.ExactSum.Trouble)
  | tooDeep
  | crash (message : String)
  | operands (message : String)
  | unreadableNumber (text : String)
  | unopenedBlock
  | unknownKeyword (keyword : String)
  | settingTooLarge
  | longInteger (digits : Option Nat)
  | homeUnknown
  | file (path : String) (trouble : FileTrouble)
deriving DecidableEq, Repr

/-- The wording for an integer with too many digits. -/
def longIntegerMessage (digits : Option Nat) : String :=
  let count := match digits with
    | some n => ": value has " ++ toString n ++ " digits"
    | none => ""
  "Exceeds the limit (" ++ toString Text.digitLimit ++ " digits) for integer string conversion"
    ++ count ++ "; use sys.set_int_max_str_digits() to increase the limit"

/-- The wording of a fault. -/
def Fault.message : Fault → String
  | sum .overflow => "intermediate overflow in fsum"
  | sum .oppositeInfinities => "-inf + inf in fsum"
  | tooDeep => "maximum recursion depth exceeded"
  | crash message => message
  | operands message => message
  | unreadableNumber text => "could not convert string to float: " ++ Text.quote text
  | unopenedBlock => "not enough values to unpack (expected 2, got 0)"
  | unknownKeyword keyword => Text.quote keyword
  | settingTooLarge => "int too large to convert to float"
  | longInteger digits => longIntegerMessage digits
  | homeUnknown => "Could not determine home directory."
  | file path trouble => trouble.message path

/-- The class of a fault in reports. -/
def Fault.label : Fault → String
  | sum .overflow => "OverflowError"
  | sum .oppositeInfinities => "ValueError"
  | tooDeep => "RecursionError"
  | crash _ => "RuntimeError"
  | operands _ => "TypeError"
  | unreadableNumber _ => "ValueError"
  | unopenedBlock => "ValueError"
  | unknownKeyword _ => "KeyError"
  | settingTooLarge => "OverflowError"
  | longInteger _ => "ValueError"
  | homeUnknown => "RuntimeError"
  | file _ trouble => trouble.label

/-- Everything that ends a run without a result. -/
inductive Error where
  | failure (failure : Failure)
  | fault (fault : Fault)
deriving DecidableEq, Repr

/-- The error of a program that cannot use a file: its path is to blame, unless no file
    can have such a path. -/
def Error.ofFile (path : String) (trouble : FileTrouble) : Error :=
  match trouble with
  | .nullInPath => fault (.file path trouble)
  | _ => failure (.named path (.file path))

/-- The error with what is missing in a failure filled in from a step. -/
def Error.blamedOn (error : Error) (token : String) (place : Option Place) (stack : Stack) :
    Error :=
  match error with
  | failure x => failure (x.blamedOn token place stack)
  | fault x => fault x

end StackCalc
