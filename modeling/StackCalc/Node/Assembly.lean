/-
  StackCalc.Node.Assembly

  From a flat list of tokens to the nodes of a program.  Constructs that are open
  are kept with the nodes that stand before them.  The closing bracket of a block
  is kept in the same way until the combinator arrives that consumes the block.
-/

import StackCalc.Error
import StackCalc.Node

namespace StackCalc
namespace Assembly

/-- What an open construct was opened by. -/
inductive Opener where
  | block
  | blockEnd
  | test
  | alternative
deriving DecidableEq, Repr

/-- An open construct: the nodes before it, last first, the word that opened it,
    and its place. -/
structure Pending where
  before : List Node
  opener : Opener
  text : String
  place : Place

/-- A directive that waits for the name of its variable. -/
structure Directive where
  keyword : String
  stores : Bool
  place : Place

/-- The state of an assembly: the nodes of the innermost construct, last first, the
    open constructs, innermost first, and the lines seen so far. -/
structure State where
  output : List Node
  pending : List Pending
  directive : Option Directive
  extent : Extent

/-- Before the first token. -/
def State.start (extent : Extent) : State := ⟨[], [], none, extent⟩

/-- The fault of a token. -/
def faultAt (problem : SourceProblem) (token : Token) : Error :=
  .failure <| .ofSource
    { problem := problem
      token := token.text
      name := token.settled.origin.name?
      line := token.settled.first
      column := token.settled.column? }

/-- One more node. -/
def State.push (state : State) (node : Node) : State :=
  { state with output := node :: state.output }

/-- One more open construct. -/
def State.openWith (state : State) (opener : Opener) (token : Token) : State :=
  { state with
    output := []
    pending := ⟨state.output, opener, token.text, token.settled⟩ :: state.pending }

/-- The node of a directive and its variable. -/
def Directive.node (directive : Directive) (name : String) : Node :=
  if directive.stores then .store name directive.place else .fetch name directive.place

/-- A combinator consumes the block that was closed last, whose bracket must be the
    innermost open construct. -/
def State.closeBlock (state : State) (token : Token) : Except Error State :=
  match state.pending with
  | ⟨body, .blockEnd, _, _⟩ :: ⟨before, _, _, place⟩ :: rest =>
    .ok { state with
      output := .block body.reverse (.ofKeyword token.text) place :: before
      pending := rest }
  | [⟨_, .blockEnd, _, _⟩] => .error (.fault .unopenedBlock)
  | _ => .error (faultAt (.combinatorMisplaced token.text) token)

/-- The end of a conditional closes its alternative, if there is one, and the
    conditional. -/
def State.closeTest (state : State) (token : Token) : Except Error State :=
  match state.pending with
  | ⟨consequent, .alternative, _, _⟩ :: ⟨before, .test, text, place⟩ :: rest =>
    .ok { state with
      output := .branch (.ofKeyword text) consequent.reverse state.output.reverse place :: before
      pending := rest }
  | ⟨before, .test, text, place⟩ :: rest =>
    .ok { state with
      output := .branch (.ofKeyword text) state.output.reverse [] place :: before
      pending := rest }
  | _ => .error (faultAt (.outsideConditional "fi") token)

/-- One more token, where no directive waits for a name. -/
def State.item (state : State) (token : Token) : Except Error State :=
  match token.kind with
  | .number =>
    match Double.read? token.text.toList with
    | some x => .ok (state.push (.cell (.number x)))
    | none => .error (.fault (.unreadableNumber token.text))
  | .symbol => .ok (state.push (.cell (.text (String.ofList (token.text.toList.drop 1)))))
  | .word => .ok (state.push (.word token.text token.settled))
  | .store => .ok { state with directive := some ⟨token.text, true, token.settled⟩ }
  | .fetch => .ok { state with directive := some ⟨token.text, false, token.settled⟩ }
  | .blockOpen => .ok (state.openWith .block token)
  | .test => .ok (state.openWith .test token)
  | .blockClose => .ok (state.openWith .blockEnd token)
  | .alternative =>
    match state.pending with
    | ⟨_, .test, _, _⟩ :: _ => .ok (state.openWith .alternative token)
    | _ => .error (faultAt (.outsideConditional "else") token)
  | .combinator => state.closeBlock token
  | .testEnd => state.closeTest token
  | _ => .error (faultAt (.unexpected token.text) token)

/-- One more token. -/
def State.step (state : State) (token : Token) : Except Error State :=
  let state := match token.lines with
    | some lines => { state with extent := state.extent.widen lines }
    | none => state
  match state.directive with
  | some directive =>
    if token.kind = .word then
      .ok { state with
        output := directive.node token.text :: state.output
        directive := none }
    else .error (faultAt (.variableExpected directive.keyword token.text) token)
  | none => state.item token

/-- The program at the end of the tokens. -/
def State.finish (state : State) : Except Error Program :=
  if state.pending.isEmpty && state.directive.isNone then
    .ok ⟨state.output.reverse, state.extent⟩
  else
    .error <| .failure <| .ofSource
      { problem := .unfinishedProgram
        token := ""
        name := state.extent.name
        line := some state.extent.first
        column := none }

end Assembly

/-- The program of a list of tokens, whose lines widen the given extent. -/
def assemble (tokens : List Token) (extent : Extent) : Except Error Program :=
  (tokens.foldlM Assembly.State.step (Assembly.State.start extent)).bind Assembly.State.finish

end StackCalc
