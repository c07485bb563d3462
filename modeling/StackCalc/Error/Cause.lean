/-
  StackCalc.Error.Cause

  Why a program has no result, in the terms of the program, and the wording of
  each cause.
-/

import StackCalc.Double.Arithmetic
import StackCalc.Effect
import StackCalc.Error.Source
import StackCalc.Positional

namespace StackCalc

/-- Why a function has no value: it is undefined as a real function, or it gave up
    with a message. -/
inductive Refusal where
  | undefined (reason : Double.Undefined)
  | raised (message : String)
deriving DecidableEq, Repr

/-- The wording of a refusal. -/
def Refusal.message : Refusal → String
  | undefined .outsideDomain => "math domain error"
  | undefined .divisionByZero => "float division by zero"
  | undefined .integerTooLarge => "int too large to convert to float"
  | raised message => message

/-- What an operation needs a whole number for. -/
inductive Purpose where
  | factorial
  | commonDivisor
  | random
  | baseConversion
  | hexadecimal
  | binary
  | colour
deriving DecidableEq, Repr

/-- The wording of a purpose. -/
def Purpose.wording : Purpose → String
  | factorial => "Factorial"
  | commonDivisor => "GCD"
  | random => "Random"
  | baseConversion => "Base conversion"
  | hexadecimal => "Hexadecimal conversion"
  | binary => "Binary conversion"
  | colour => "Color conversion"

/-- Operands that an operation has no result for. -/
inductive DomainProblem where
  | undefined (operation : String) (refusal : Refusal)
  | notCountable (purpose : Purpose) (x : Float)
  | notWhole (purpose : Purpose) (x : Float)
  | factorialTooLarge (n : Nat)
  | badNumeral (text : String) (base : Base)
  | colourLength (text : String)
  | channelRange (channels : List Nat)
  | complaint (message : String)
deriving DecidableEq, Repr

/-- The wording of an operand out of the domain. -/
def DomainProblem.message : DomainProblem → String
  | undefined operation refusal =>
    SourceProblem.ticked operation ++ " is undefined for these operands (" ++ refusal.message ++ ")."
  | notCountable purpose x =>
    purpose.wording ++ " requires a non-negative finite number, got " ++ Double.shortest x ++ "."
  | notWhole purpose x =>
    purpose.wording ++ " requires a non-negative integer, got " ++ Double.shortest x ++ "."
  | factorialTooLarge n => "Factorial of " ++ toString n ++ " is too large for a double."
  | badNumeral text base =>
    SourceProblem.ticked text ++ " is not a valid base-" ++ toString base.radix ++ " number."
  | colourLength text =>
    "Color " ++ SourceProblem.ticked text ++ " must have exactly six hexadecimal digits."
  | channelRange channels =>
    "Color channels must be within 0-255, got ["
      ++ ", ".intercalate (channels.map toString) ++ "]."
  | complaint message => message

/-- What went wrong, in the terms of the program that is run. -/
inductive Cause where
  | source (fault : SourceError)
  | unknownName (word : String)
  | unboundVariable (name : String)
  | unknownOperation (name : String)
  | tooFew (operation : String) (needed available : Nat)
  | nothingToStore (name : String)
  | noSeed (combinator : String)
  | domain (problem : DomainProblem)
  | wrongType (operation : String) (expected : CellType) (position : Nat) (got : Cell)
  | mapLeft (count : Nat)
  | emptied (combinator : String)
  | file (path : String)
  | unnamedOperation (function : String)
  | badSignature (operation : String) (trouble : SignatureTrouble)
deriving DecidableEq, Repr

/-- The classes of causes. -/
inductive Category where
  | parse
  | incomplete
  | name
  | stack
  | domain
  | type
  | block
  | file
  | signature
deriving DecidableEq, Repr

namespace Cause

/-- The class of a cause. -/
def category : Cause → Category
  | source fault => if fault.problem.isIncomplete then .incomplete else .parse
  | unknownName _ | unboundVariable _ | unknownOperation _ => .name
  | tooFew .. | nothingToStore _ | noSeed _ => .stack
  | domain _ => .domain
  | wrongType .. => .type
  | mapLeft _ | emptied _ => .block
  | file _ => .file
  | unnamedOperation _ | badSignature .. => .signature

/-- The wording for a stack that is too small. -/
def tooFewMessage (operation : String) (needed available : Nat) : String :=
  SourceProblem.ticked operation ++ " needs at least " ++ toString needed
    ++ " item(s) on the stack, but " ++ toString available ++ " available."

/-- What kind of cell was found, in the words of a message. -/
def found : Cell → String
  | .number _ => "number"
  | .text _ => "symbol"

/-- The wording of a signature without a stack effect. -/
def signatureMessage (operation : String) : SignatureTrouble → String
  | .variadic => "Operation " ++ SourceProblem.ticked operation ++ " cannot take variadic arguments."
  | .declared (.unknownGeneric spelling) =>
    "Unknown generic in type definition for " ++ spelling ++ "."
  | .declared .nameInQuotes => "Forward references and strings-as-types not supported."
  | .declared (.unknownType spelling type) =>
    "Unknown type to normalize: " ++ spelling ++ " <class " ++ Text.quote type ++ ">"

/-- The wording of a cause. -/
def message : Cause → String
  | source fault => fault.problem.message
  | unknownName word =>
    "Unknown symbol " ++ SourceProblem.ticked word
      ++ ", not a number, built-in or defined function."
  | unboundVariable name =>
    "Variable " ++ SourceProblem.ticked name ++ " was never stored."
  | unknownOperation name =>
    "Operation " ++ SourceProblem.ticked name ++ " not found in library."
  | tooFew operation needed available => tooFewMessage operation needed available
  | nothingToStore name =>
    SourceProblem.ticked ("sto " ++ name) ++ " needs a value on the stack."
  | noSeed combinator =>
    SourceProblem.ticked combinator ++ " needs a seed value on top of the stack."
  | domain problem => problem.message
  | wrongType operation expected position got =>
    SourceProblem.ticked operation ++ " expects " ++ expected.description ++ " at position "
      ++ toString position ++ " from top, got " ++ found got ++ "."
  | mapLeft count =>
    "`map` block must leave exactly one item per element, but left " ++ toString count ++ "."
  | emptied combinator =>
    SourceProblem.ticked combinator ++ " block left an empty stack, no accumulator to keep."
  | file path => "[Errno None] None: " ++ Text.quote path
  | unnamedOperation function =>
    "Operator function " ++ SourceProblem.ticked function
      ++ " requires prefix `op_` by convention."
  | badSignature operation trouble => signatureMessage operation trouble

end Cause

/-- The name of a class of causes in reports. -/
def Category.label : Category → String
  | parse => "CompParseError"
  | incomplete => "CompIncompleteParse"
  | name => "CompNameError"
  | stack => "CompStackError"
  | domain => "CompDomainError"
  | type => "CompTypeError"
  | block => "CompBlockError"
  | file => "CompFileError"
  | signature => "CompSignatureError"

end StackCalc
