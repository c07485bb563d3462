/-
  StackCalc.Library

  What names stand for.  Built-in functions and commands, under their own and
  their other names, come before definitions, so a definition with such a name is
  never reached.  Functions can be registered under any name; names for which
  another name is known keep standing for that one.
-/

import StackCalc.Node.Assembly
import StackCalc.Operation.Builtin
import StackCalc.Table
import StackCalc.Text.Colour

namespace StackCalc

/-- The function table and the definitions.  Nothing changes the commands and the other
    names of operations once they are there, so every library shares the tables of them,
    `Builtin.commands` and `Builtin.aliases`. -/
structure Library where
  functions : Table Function
  definitions : Table Program

/-- What a name stands for: a function or command under its own name, or a
    definition. -/
inductive Target where
  | function (key : String) (function : Function)
  | command (key : String) (command : Command)
  | definition (program : Program)

/-- A name as it was written, and what it stands for. -/
structure Operation where
  name : String
  target : Target

/-- A remark on a new definition. -/
inductive Warning where
  | shadowed (name : String)
  | redefined (name : String)
deriving DecidableEq, Repr

/-- The wording of a remark. -/
def Warning.message : Warning → String
  | shadowed name =>
    "function " ++ SourceProblem.ticked name
      ++ " is shadowed by the built-in of the same name and will never be called"
  | redefined name =>
    "function " ++ SourceProblem.ticked name ++ " redefined, the previous definition is replaced"

/-- A remark as it is printed. -/
def warningLine (message : String) : String :=
  "  " ++ Text.Colour.paint "1;33" "warning" ++ ": " ++ message ++ "\n"

namespace Library

/-- The library without registrations and definitions. -/
def fresh : Library := ⟨⟨Builtin.functions⟩, .empty⟩

/-- The command of a name, if it is one under its own name. -/
def command? (key : String) : Option Command :=
  Table.find? key Builtin.commands

/-- Whether a name stands for a function or a command. -/
def isBuiltin (library : Library) (name : String) : Bool :=
  let key := Builtin.target name
  library.functions.contains key || (command? key).isSome

/-- Whether a word starts like a number. -/
def startsLikeNumber (word : List Char) : Bool :=
  let unsigned := match word with
    | '+' :: rest | '-' :: rest => rest
    | _ => word
  let digits := match unsigned with
    | '.' :: rest => rest
    | _ => unsigned
  digits.head?.any Text.isDigit

/-- The failure of a word that stands for nothing. -/
def unresolved (name : String) (place : Option Place) : Failure :=
  if startsLikeNumber name.toList then
    .ofSource
      { problem := .malformedNumber name
        token := name
        name := place.bind (·.origin.name?)
        line := place.bind (·.first)
        column := place.bind (·.column?) }
  else ⟨.unknownName name, some name, place, none⟩

/-- What a word stands for. -/
def resolve (library : Library) (name : String) (place : Option Place) :
    Except Failure Operation :=
  let key := Builtin.target name
  match library.functions.get? key with
  | some function => .ok ⟨name, .function key function⟩
  | none =>
    match command? key with
    | some command => .ok ⟨name, .command key command⟩
    | none =>
      match library.definitions.get? name with
      | some program => .ok ⟨name, .definition program⟩
      | none => .error (unresolved name place)

/-- The stack effect of a function. -/
def signature (library : Library) (name : String) : Except Failure Effect :=
  match library.functions.get? (Builtin.target name) with
  | some function => .ok function.effect
  | none => .error (.named name (.unknownOperation name))

/-- The library with a definition, which replaces an earlier one of the name. -/
def define (library : Library) (name : String) (program : Program) : Library :=
  { library with definitions := library.definitions.set name program }

/-- The remark on a definition of a name, made before the name is bound. -/
def warning? (library : Library) (name : String) : Option Warning :=
  if library.isBuiltin name then some (.shadowed name)
  else if library.definitions.contains name then some (.redefined name)
  else none

/-- The library with a function registered under a name. -/
def register (library : Library) (name : String) (function : Function) : Library :=
  { library with functions := library.functions.set name function }

/-- The library without its definitions. -/
def forget (library : Library) : Library :=
  { library with definitions := .empty }

/-- All names that stand for something, each once, in ascending order. -/
def names (library : Library) : List String :=
  let all := library.functions.names ++ Builtin.commands.map (·.1)
    ++ Builtin.aliases.map (·.1) ++ library.definitions.names
  all.eraseDups.mergeSort (· ≤ ·)

end Library

/-- Whether two operations work in the same way: functions and commands with the
    same key, or definitions of the same name. -/
def Operation.same (x y : Operation) : Bool :=
  match x.target, y.target with
  | .function key _, .function key' _ => key = key'
  | .command key _, .command key' _ => key = key'
  | .definition _, .definition _ => x.name = y.name
  | _, _ => false

end StackCalc
