/-
  StackCalc.Shell.Repl

  The interactive calculator, one line at a time.  Lines are collected until they
  make up a text that can be run; an error empties the collection, but a text that
  is merely unfinished waits for its next line.
-/

import StackCalc.Session
import StackCalc.Shell.Report

namespace StackCalc
namespace Shell

open StackCalc.Text

/-- Text for the two outputs. -/
structure Output where
  out : String
  err : String
deriving DecidableEq, Repr

/-- Nothing is written. -/
def Output.none : Output := ⟨"", ""⟩

/-- One output behind another. -/
def Output.append (x y : Output) : Output := ⟨x.out ++ y.out, x.err ++ y.err⟩

/-- Text without colours, where colours are not wanted. -/
def Output.dressed (plain : Bool) (x : Output) : Output :=
  if plain then ⟨Colour.strip x.out, Colour.strip x.err⟩ else x

/-- What the reports need to know. -/
structure Desk where
  files : Files
  config : Config
  verbosity : Nat
  note : Fault → String

/-- The state between two lines: the session, its current stack, the lines that wait
    to be run, and whether an error was reported. -/
structure Repl where
  session : Session
  stack : Stack
  waiting : String
  failed : Bool

namespace Repl

/-- The name of the text that is typed in. -/
def name : String := "<REPL>"

/-- The first line of the output. -/
def greeting : String :=
  "comp - Reverse Polish notation stack calculator; type Ctrl+C to exit.\n"

/-- The start of the interaction. -/
def start (session : Session) : Repl := ⟨session, [], "", false⟩

/-- The exit status. -/
def status (repl : Repl) : Nat := if repl.failed then 1 else 0

/-- What is written in front of a line: more is expected where lines are waiting. -/
def prompt (repl : Repl) : String :=
  if (trim isBlank repl.waiting.toList).isEmpty then Colour.paint "36" "<<< "
  else Colour.paint "36" "... "

/-- The line without the blanks at its ends. -/
def word (line : String) : String := String.ofList (trim isBlank line.toList)

/-- Whether a line ends the interaction. -/
def isExit (line : String) : Bool := word line = "quit" || word line = "exit"

/-- Whether an error only says that the text is unfinished. -/
def isUnfinished : Error → Bool
  | .failure failure => failure.cause.category = .incomplete
  | .fault _ => false

/-- The state behind a line that does not end the interaction, and what is written;
    if a report cannot be made, the trouble that prevented it. -/
def feed (desk : Desk) (repl : Repl) (line : String) : (Repl × Output) × Option FileTrouble :=
  if (word line).isEmpty then ((repl, .none), none)
  else
    let source := repl.waiting ++ line ++ "\n"
    let outcome := repl.session.run source repl.stack (some name) desk.verbosity
    let output : Output := ⟨outcome.printed, outcome.remarks⟩
    match outcome.result with
    | .ok stack =>
      let shown := showStack desk.config.showStackLevel desk.config.precision stack
      ((⟨outcome.session, stack, "", repl.failed⟩, output.append ⟨shown, ""⟩), none)
    | .error error =>
      let repl := { repl with session := outcome.session }
      if isUnfinished error then (({ repl with waiting := source }, output), none)
      else
        match errorReport desk.files desk.config.precision ⟨name, source⟩ desk.note error with
        | .ok report =>
          (({ repl with waiting := "", failed := true }, output.append ⟨"", report⟩), none)
        | .error trouble => ((repl, output), some trouble)

/-- The whole interaction on a list of lines, behind the greeting.  At the end of the
    input a new line is begun, but not behind a line that ends the interaction. -/
def interact (desk : Desk) (repl : Repl) (output : Output) :
    List String → (Repl × Output) × Option FileTrouble
  | [] => ((repl, output.append ⟨repl.prompt ++ "\n", ""⟩), none)
  | line :: rest =>
    let output := output.append ⟨repl.prompt, ""⟩
    if isExit line then ((repl, output), none)
    else
      match repl.feed desk line with
      | ((next, more), none) => next.interact desk (output.append more) rest
      | ((next, more), some trouble) => ((next, output.append more), some trouble)

end Repl
end Shell
end StackCalc
