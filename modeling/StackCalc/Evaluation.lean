/-
  StackCalc.Evaluation

  Running programs.  A frame works off a queue of nodes; the branch that a
  conditional selects is put in front of the rest of the queue.  Calls of
  definitions and the runs of a block are frames of their own, nested in the frame
  that needs them.  `runFrame` is one frame, given what to do for the nested ones;
  `run` ties the knot with a limit on how deep frames may be nested.

  An error is blamed on the step of the innermost frame that it came from: outer
  frames only fill in what is still missing.
-/

import StackCalc.Evaluation.Block
import StackCalc.Evaluation.Trace

namespace StackCalc

/-! ## Frames -/

/-- Runs an operation. -/
def execute (setting : Setting) (nested : Nested) (operation : Operation) (stack : Stack)
    (m : Machine) : Reply Stack :=
  match operation.target with
  | .function _ function => applyFunction function operation.name stack m
  | .command _ command => applyCommand setting.config command operation.name stack m
  | .definition program => nested program.nodes stack m

/-- Runs a node that is not a conditional. -/
def executeNode (setting : Setting) (nested : Nested) (node : Node) (stack : Stack)
    (m : Machine) : Reply Stack :=
  match node with
  | .cell c => (.ok (c :: stack), m)
  | .word name place =>
    match setting.library.resolve name (some place) with
    | .error failure => (.error (.failure failure), m)
    | .ok operation => execute setting nested operation stack m
  | .block body combinator place => applyBlock nested body combinator place stack m
  | .branch .. => (.ok stack, m)
  | .store name _ =>
    match stack with
    | [] => (.error (.failure (.named "sto" (.nothingToStore name))), m)
    | cell :: rest => (.ok rest, { m with memory := m.memory.setValue name cell })
  | .fetch name _ =>
    match m.memory.value? name with
    | none => (.error (.failure (.named name (.unboundVariable name))), m)
    | some cell => (.ok (cell :: stack), m)

/-- An error with what is missing filled in from a node and the stack before it. -/
def Error.blamedOnNode (error : Error) (node : Node) (stack : Stack) : Error :=
  error.blamedOn node.token node.place? stack

/-- One frame: works off a queue of nodes, `step` of which are done. -/
def runFrame (setting : Setting) (nested : Nested) (step : Nat) (nodes : List Node)
    (stack : Stack) (m : Machine) : Reply Stack :=
  match nodes with
  | [] => (.ok stack, finished setting step stack m)
  | .branch test consequent alternative place :: rest =>
    let node := Node.branch test consequent alternative place
    let m := traced setting step (node :: rest) stack m
    match selectBranch test stack with
    | .error error => (.error (error.blamedOnNode node stack), m)
    | .ok (condition, below) =>
      runFrame setting nested (step + 1)
        ((if condition then consequent else alternative) ++ rest) below m
  | node :: rest =>
    let m := traced setting step (node :: rest) stack m
    match executeNode setting nested node stack m with
    | (.error error, m) => (.error (error.blamedOnNode node stack), m)
    | (.ok next, m) => runFrame setting nested (step + 1) rest next m
termination_by Node.sizeAll nodes
decreasing_by
  · exact Node.sizeAll_branch_append ..
  · simp only [Node.sizeAll_cons]
    have := Node.size_pos node
    omega

/-- Runs a program in frames that are nested at most `depth` deep. -/
def run (setting : Setting) : Nat → Nested
  | 0 => fun _ _ m => (.error (.fault .tooDeep), m)
  | depth + 1 => runFrame setting (run setting depth) 0

/-- How deep frames may be nested. -/
def depthLimit : Nat := 3300

/-! ## Single steps -/

/-- Runs a queue node by node: the stack and the number of nodes left after every
    step, and the error that ended the run, if one did. -/
def trail (setting : Setting) (depth : Nat) (nodes : List Node) (stack : Stack) (m : Machine) :
    List (Stack × Nat) × Option Error × Machine :=
  match nodes with
  | [] => ([], none, m)
  | .branch test consequent alternative _place :: rest =>
    match selectBranch test stack with
    | .error error => ([], some error, m)
    | .ok (condition, below) =>
      let queue := (if condition then consequent else alternative) ++ rest
      let (more, error, m) := trail setting depth queue below m
      ((below, queue.length) :: more, error, m)
  | node :: rest =>
    match executeNode setting (run setting depth) node stack m with
    | (.error error, m) => ([], some error, m)
    | (.ok next, m) =>
      let (more, error, m) := trail setting depth rest next m
      ((next, rest.length) :: more, error, m)
termination_by Node.sizeAll nodes
decreasing_by
  · exact Node.sizeAll_branch_append ..
  · simp only [Node.sizeAll_cons]
    have := Node.size_pos node
    omega

end StackCalc
