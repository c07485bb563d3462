/-
  StackCalc.Shell.Report

  Reports of errors: a header with the class of the error, the word and the text it
  comes from, the lines around the word, and the stack before the step that failed.
  A report may need the lines of a file; if that file cannot be read, the report
  itself fails.
-/

import StackCalc.Display
import StackCalc.Error

namespace StackCalc
namespace Shell

open StackCalc.Text

/-- The header of a class of failures.  The one of signatures is never shown: they fail
    where a function is registered, and the calculator registers none. -/
def header : Category → String
  | .parse => "SYNTAX ERROR."
  | .incomplete => "SYNTAX ERROR."
  | .name => "UNKNOWN SYMBOL."
  | .stack => "STACK UNDERFLOW."
  | .domain => "DOMAIN ERROR."
  | .type => "TYPE ERROR."
  | .block => "BLOCK ERROR."
  | .file => "FILE ERROR."
  | .signature => "TYPE ERROR."

/-- The text that is run: its name and its content. -/
structure Subject where
  name : String
  source : String
deriving DecidableEq, Repr

/-- A header in colours. -/
def banner (title : String) : String :=
  Colour.code "30;43" ++ " " ++ title ++ " " ++ Colour.reset

/-- The first line of a report, and the context below it. -/
def layOut (title detail label context : String) : String :=
  banner title ++ " " ++ detail ++ " (Exception: " ++ Colour.paint "33" label ++ ")\n"
    ++ context ++ "\n"

/-- The lines around a word of a file; the file is not looked at if the line has no
    number. -/
def contextInFile (files : Files) (name : String) (line column : Option Int) (word : String) :
    Except FileTrouble String :=
  match line with
  | some (.ofNat (_ + 1)) =>
    (files.read name).map fun content => fileContext name line column word content
  | _ => .ok ""

/-- The lines around a word of a text that may be the subject or a file. -/
def contextIn (files : Files) (subject : Subject) (name : String) (line column : Option Int)
    (word : String) : Except FileTrouble String :=
  if name = subject.name then .ok (typedContext name line column word subject.source)
  else contextInFile files name line column word

/-- A message on a single line. -/
def flatten (message : String) : String :=
  String.ofList (message.toList.map fun c => if c = '\n' || c = '\t' then ' ' else c)

/-- The report of a fault of a text. -/
def sourceReport (files : Files) (subject : Subject) (label : String) (fault : SourceError) :
    Except FileTrouble String :=
  let name := match fault.name with
    | some name => if name.isEmpty then subject.name else name
    | none => subject.name
  (contextIn files subject name fault.line fault.column fault.token).map fun context =>
    layOut "SYNTAX ERROR."
      ("Parsing `" ++ Colour.paint "97" subject.name ++ "` caused a problem!") label
      (context ++ "\n" ++ Colour.paint "90" (flatten fault.problem.message) ++ "\n")

/-- The lines around the word that a failure is blamed on.  If the word does not come
    from the subject, its text must be a file. -/
def failureContext (files : Files) (subject : Subject) (failure : Failure) :
    Except FileTrouble String :=
  let name := match failure.place.bind (·.origin.name?) with
    | some name => if name.isEmpty then subject.name else name
    | none => subject.name
  let context := contextIn files subject name (failure.place.bind (·.first))
    (failure.place.bind (·.column?)) (failure.token.getD "")
  if name = subject.name then context
  else
    match files.isFile name with
    | .error trouble => .error trouble
    | .ok true => context
    | .ok false => .ok ""

/-- The stack before the step that failed. -/
def stackContext (precision : Option Nat) (stack : Option Stack) : String :=
  match stack with
  | none => ""
  | some cells =>
    let items :=
      if cells.isEmpty then "∅" else Item.shown precision (.stack (cells.map Cell.item))
    Colour.code "1;33" ++ "  Stack content is" ++ Colour.code "0;33" ++ "\n    " ++ items
      ++ Colour.reset ++ "\n"

/-- The report of a failure. -/
def failureReport (files : Files) (precision : Option Nat) (subject : Subject)
    (failure : Failure) : Except FileTrouble String :=
  let label := failure.cause.category.label
  match failure.cause with
  | .source fault => sourceReport files subject label fault
  | cause =>
    (failureContext files subject failure).map fun context =>
      layOut (header cause.category)
        ("Term `" ++ Colour.paint "1;97" (failure.token.getD "None") ++ "` from `"
          ++ Colour.paint "97" subject.name ++ "` failed: " ++ cause.message)
        label (context ++ "\n" ++ stackContext precision failure.stack)

/-- The report of trouble of the machinery; `note` is what is known about it. -/
def faultReport (subject : Subject) (fault : Fault) (note : String) : String :=
  match fault with
  | .tooDeep =>
    layOut "RECURSION ERROR."
      ("Program in `" ++ Colour.paint "97" subject.name
        ++ "` recursed deeper than the host call stack allows.")
      fault.label ""
  | _ =>
    banner "RUNTIME ERROR." ++ " Evaluating `" ++ Colour.paint "97" subject.name
      ++ "` caused an error in interpret! (Exception: " ++ Colour.paint "33" fault.label ++ ")\n"
      ++ note ++ "\n"

/-- The report of an error. -/
def errorReport (files : Files) (precision : Option Nat) (subject : Subject)
    (note : Fault → String) (error : Error) : Except FileTrouble String :=
  match error with
  | .failure failure => failureReport files precision subject failure
  | .fault fault => .ok (faultReport subject fault (note fault))

end Shell
end StackCalc
