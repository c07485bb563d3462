/-
  StackCalc.Evaluation.Trace

  Traces: a line before each traced step of a frame and one behind its last step.
  A trace only adds lines to what is printed.
-/

import StackCalc.Machine
import StackCalc.Text.Column

namespace StackCalc

/-- One line of a trace: the stack from the bottom to the top on the left, the
    program on the right, each cut to the width. -/
def traceColumns (width : Nat) (nodes : List Node) (stack : Stack) : String :=
  let program := if nodes.isEmpty then "∅" else " ".intercalate (nodes.map Node.shown)
  let cells :=
    if stack.isEmpty then "∅" else " ".intercalate (stack.reverse.map (Cell.shown none))
  Text.alignRight width (Text.cutStart width cells) ++ " " ++ Text.Colour.paint "36" " <=> "
    ++ " " ++ Text.alignLeft width (Text.cutEnd width program) ++ "\n"

/-- The line of a trace before a step of a frame. -/
def traceLine (step : Nat) (nodes : List Node) (stack : Stack) : String :=
  Text.Colour.paint "90" (Text.alignRight 3 (toString step) ++ " :") ++ "  "
    ++ traceColumns 72 nodes stack

/-- Whether a step is traced at low verbosity: blocks, conditionals, and calls of
    defined names. -/
def isNotable (library : Library) : Node → Bool
  | .block .. => true
  | .branch .. => true
  | .word name _ => library.definitions.contains name
  | _ => false

/-- The machine with the line of the trace before a step, if the step is traced. -/
def traced (setting : Setting) (step : Nat) (nodes : List Node) (stack : Stack) (m : Machine) :
    Machine :=
  let wanted :=
    setting.verbosity = 2
      || (setting.verbosity = 1
        && (nodes.head?.any (isNotable setting.library) || step = 0))
  if wanted then m.note (.trace (traceLine step nodes stack)) else m

/-- The machine behind the last step of a frame. -/
def finished (setting : Setting) (step : Nat) (stack : Stack) (m : Machine) : Machine :=
  let m := if setting.verbosity > 0 then m.note (.trace (traceLine step [] stack)) else m
  m.finish step

end StackCalc
