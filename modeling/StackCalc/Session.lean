/-
  StackCalc.Session

  Sessions: definitions, registrations and memory live on from run to run.  A run
  parses its whole text first; then every definition is bound, before the first
  node of the program is executed.
-/

import StackCalc.Clause
import StackCalc.Evaluation

namespace StackCalc

/-- What lives on from run to run. -/
structure Session where
  library : Library
  memory : Memory
  config : Config
  seed : Nat

/-- The outcome of a step of a session: its result, the session after it, what was
    printed and what was remarked, and the number of steps counted, if a frame
    finished. -/
structure Outcome (α : Type) where
  result : Except Error α
  session : Session
  printed : String
  remarks : String
  steps : Option Nat

namespace Session

/-- A session with a configuration, before the first run. -/
def fresh (config : Config) : Session := ⟨.fresh, .fresh, config, 0⟩

/-- An outcome without any effect. -/
def unchanged {α : Type} (session : Session) (result : Except Error α) : Outcome α :=
  ⟨result, session, "", "", none⟩

/-- The setting of a run. -/
def setting (session : Session) (verbosity : Nat) : Setting :=
  ⟨session.library, session.config, verbosity⟩

/-- The machine at the start of a run. -/
def machine (session : Session) : Machine := .start session.memory session.seed

/-- The outcome of a reply of the machine. -/
def settle {α : Type} (session : Session) (remarks : String) (reply : Reply α) : Outcome α :=
  let m := reply.2
  { result := reply.1
    session := { session with memory := m.memory, seed := m.seed }
    printed := m.output
    remarks := remarks
    steps := if m.frames = 0 then none else some m.steps }

/-! ## Definitions -/

/-- The tokens of lexemes of a text. -/
def tokens (name : Option String) (words : List Lexeme) : List Token :=
  words.map (·.token name)

/-- Binds a name, with the remark that is due before. -/
def bind (session : Session) (name : String) (program : Program) : Session × String :=
  let remark :=
    if session.config.showWarnings then
      ((session.library.warning? name).map fun w => warningLine w.message).getD ""
    else ""
  ({ session with library := session.library.define name program }, remark)

/-- Binds all definitions of a text in order.  The remarks so far come first. -/
def bindAll (session : Session) (name : Option String) (remarks : String) :
    List (Lexeme × List Lexeme) → Except Error Unit × Session × String
  | [] => (.ok (), session, remarks)
  | (head, body) :: rest =>
    match assemble (tokens name body) ⟨name, head.line, head.line⟩ with
    | .error error => (.error error, session, remarks)
    | .ok program =>
      let (session, remark) := session.bind head.text program
      session.bindAll name (remarks ++ remark) rest

/-- The name of the text that defines a function. -/
def definitionName (name : String) : String := "<DEFINE:" ++ name ++ ">"

/-- The fault of a definition inside of a definition. -/
def nestedFault (name inner : String) : SourceError :=
  { problem := .nestedDefinition
    token := inner
    name := some (definitionName name)
    line := none
    column := none }

/-- Binds a text as the body of a function. -/
def define (session : Session) (name source : String) : Outcome Unit :=
  let origin := some (definitionName name)
  match parse source origin with
  | .error fault => session.unchanged (.error (.failure (.ofSource fault)))
  | .ok clauses =>
    match definitionsOf clauses with
    | (inner, _) :: _ =>
      session.unchanged (.error (.failure (.ofSource (nestedFault name inner.text))))
    | [] =>
      match assemble (tokens origin (termWords clauses)) ⟨origin, 1, 1⟩ with
      | .error error => session.unchanged (.error error)
      | .ok program =>
        let (session, remark) := session.bind name program
        { session.unchanged (.ok ()) with remarks := remark }

/-! ## Runs -/

/-- Runs a text on a stack. -/
def run (session : Session) (source : String) (stack : Stack) (name : Option String)
    (verbosity : Nat) : Outcome Stack :=
  match parse source name with
  | .error fault => session.unchanged (.error (.failure (.ofSource fault)))
  | .ok clauses =>
    match session.bindAll name "" (definitionsOf clauses) with
    | (.error error, session, remarks) =>
      { session.unchanged (.error error) with remarks := remarks }
    | (.ok (), session, remarks) =>
      match assemble (tokens name (termWords clauses)) (.empty name) with
      | .error error => { session.unchanged (.error error) with remarks := remarks }
      | .ok program =>
        session.settle remarks
          (StackCalc.run (session.setting verbosity) depthLimit program.nodes stack session.machine)

/-- The name of a text that is given as a list of words. -/
def argumentsName : String := "<ARGS>"

/-- Runs words that are given one by one. -/
def runWords (session : Session) (words : List String) (stack : Stack) (verbosity : Nat) :
    Outcome Stack :=
  session.run (" ".intercalate words) stack (some argumentsName) verbosity

/-- Runs the text of a file. -/
def runFile (session : Session) (files : Files) (path : String) (stack : Stack)
    (verbosity : Nat) : Outcome Stack :=
  match files.read (FilePath.normal path) with
  | .ok source => session.run source stack (some path) verbosity
  | .error trouble => session.unchanged (.error (.ofFile path trouble))

/-- What a name stands for. -/
def operation (session : Session) (name : String) : Except Failure Operation :=
  session.library.resolve name none

/-- Runs a single operation, without blaming it for an error. -/
def applyOperation (session : Session) (operation : Operation) (stack : Stack) : Outcome Stack :=
  let setting := session.setting 0
  session.settle "" (execute setting (StackCalc.run setting depthLimit) operation stack session.machine)

/-- Runs what a name stands for. -/
def apply (session : Session) (name : String) (stack : Stack) : Outcome Stack :=
  match session.operation name with
  | .error failure => session.unchanged (.error (.failure failure))
  | .ok operation => session.applyOperation operation stack

/-! ## Single steps -/

/-- The stacks behind the steps of a run, each with the number of nodes left, and the
    error that ended it, if one did. -/
structure Trail where
  steps : List (Stack × Nat)
  failed : Option Error

/-- Runs a text node by node, after its definitions are bound without remarks. -/
def step (session : Session) (source : String) (stack : Stack) (name : Option String) :
    Outcome Trail :=
  match parse source name with
  | .error fault => session.unchanged (.error (.failure (.ofSource fault)))
  | .ok clauses =>
    match session.bindAll name "" (definitionsOf clauses) with
    | (.error error, session, _) => session.unchanged (.error error)
    | (.ok (), session, _) =>
      match assemble (tokens name (termWords clauses)) (.empty name) with
      | .error error => session.unchanged (.error error)
      | .ok program =>
        let (steps, failed, m) :=
          trail (session.setting 0) depthLimit program.nodes stack session.machine
        session.settle "" (.ok ⟨steps, failed⟩, m)

/-- A step that was prepared beforehand: a cell to push, or an operation. -/
inductive Prepared where
  | cell (c : Cell)
  | operation (operation : Operation)

/-- Runs prepared steps one by one. -/
def preparedTrail (setting : Setting) (stack : Stack) (m : Machine) :
    List Prepared → Trail × Machine
  | [] => (⟨[], none⟩, m)
  | .cell c :: rest =>
    let (more, m) := preparedTrail setting (c :: stack) m rest
    (⟨(c :: stack, rest.length) :: more.steps, more.failed⟩, m)
  | .operation operation :: rest =>
    match execute setting (StackCalc.run setting depthLimit) operation stack m with
    | (.error error, m) => (⟨[], some error⟩, m)
    | (.ok next, m) =>
      let (more, m) := preparedTrail setting next m rest
      (⟨(next, rest.length) :: more.steps, more.failed⟩, m)

/-- Runs prepared steps on a stack. -/
def stepPrepared (session : Session) (steps : List Prepared) (stack : Stack) : Outcome Trail :=
  let (result, m) := preparedTrail (session.setting 0) stack session.machine steps
  session.settle "" (.ok result, m)

/-! ## Registration -/

/-- A function of the host: its signature and what it does.  Its body is given the
    operands in the order of the parameters, or the whole stack, and gives what its
    stack effect says, as for a native operation. -/
structure HostFunction where
  signature : Signature
  body : List Cell → Except Trouble (List Cell)

/-- The failure of a signature. -/
def signatureFailure (name : String) (trouble : SignatureTrouble) : Failure :=
  let cause := Cause.badSignature name trouble
  if trouble = .variadic then .named name cause else .bare cause

/-- Registers a function of the host under a name. -/
def register (session : Session) (name : String) (function : HostFunction) :
    Except Failure Session :=
  match function.signature.effect with
  | .error trouble => .error (signatureFailure name trouble)
  | .ok effect =>
    .ok { session with library := session.library.register name (.native ⟨effect, function.body⟩) }

/-- Forgets definitions and memory; registrations stay. -/
def reset (session : Session) : Session :=
  { session with library := session.library.forget, memory := .fresh }

end Session

/-! ## Names of functions -/

/-- The name that a function goes by in a host. -/
def hostName (name : String) : String := "op_" ++ name

/-- The name of the operation that a function of the host implements. -/
def operationName (function : String) : Except Failure String :=
  match function.toList with
  | 'o' :: 'p' :: '_' :: rest => .ok (String.ofList rest)
  | _ => .error (.named function (.unnamedOperation function))

end StackCalc
