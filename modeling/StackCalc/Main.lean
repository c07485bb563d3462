/-
  StackCalc.Main

  The calculator as a command.  This layer gathers what a run depends on - the
  environment, the files that it may look at, the standard input - and carries out
  what it comes to.  On a terminal the interaction goes line by line.
-/

import StackCalc.Shell.Run

namespace StackCalc
namespace Terminal

open StackCalc.Shell

/-- The environment variables that a run may look up. -/
def readEnvironment : IO Environment := do
  let location := (← IO.getEnv "COMP_CONFIG").getD ""
  let named := Environment.references (location.length + 1) location.toList
  let names := (["COMP_CONFIG", "HOME", "COLUMNS"] ++ named).eraseDups
  let bindings ← names.filterMapM fun name => do
    return (← IO.getEnv name).map (name, ·)
  return ⟨bindings⟩

/-- What a path leads to, if it leads anywhere. -/
def readEntry? (path : String) : IO (Option FileEntry) := do
  try
    return some (.ofBytes (← IO.FS.readBinFile path).toList)
  catch
    | .inappropriateType .. => return some .directory
    | _ => return none

/-- The files that a run may look at: the settings and the directories above them, the
    script, and whatever has the name of a text that is no file. -/
def readFiles (environment : Environment) (invocation : Invocation) : IO Files := do
  let settings := invocation.options.config.toList ++ environment.configPath.toOption.toList
  let script := match invocation.task with
    | .script path _ => [path]
    | _ => []
  let texts := [Session.argumentsName, Repl.name, "<STDIN>"]
  let paths := (settings ++ script ++ texts).map FilePath.normal
  let all := (paths ++ paths.flatMap FilePath.directories).eraseDups
  let entries ← all.filterMapM fun path => do
    return (← readEntry? path).map (path, ·)
  return ⟨entries⟩

/-- All that is still to come from a stream, behind a text. -/
partial def readAll (stream : IO.FS.Stream) (text : String) : IO String := do
  let line ← stream.getLine
  if line.isEmpty then return text
  readAll stream (text ++ line)

/-- Whether a task reads the standard input as a whole. -/
def readsInput : Task → Bool
  | .script path _ => path = "-"
  | .interactive => true
  | _ => false

/-- Writes to both outputs. -/
def write (output : Output) : IO Unit := do
  let out ← IO.getStdout
  out.putStr output.out
  out.flush
  IO.eprint output.err

/-- Writes the files that a run has changed. -/
def save (before after : Files) : IO Unit :=
  after.entries.forM fun (path, entry) => do
    match entry with
    | .text content =>
      if !before.entries.contains (path, entry) then IO.FS.writeFile path content
    | _ => return

/-- Ends a run with trouble that nothing reports. -/
def crash (label : String) : IO UInt32 := do
  IO.eprintln label
  return 1

/-- The interaction, line by line. -/
partial def converse (prepared : Prepared) (repl : Repl) : IO UInt32 := do
  let say (output : Output) : IO Unit := write (output.dressed prepared.plain)
  say ⟨repl.prompt, ""⟩
  let line ← (← IO.getStdin).getLine
  if line.isEmpty then
    say ⟨"\n", ""⟩
    return UInt32.ofNat repl.status
  let line := String.ofList (Text.stripNewlines (Text.unifyNewlines line.toList))
  if Repl.isExit line then return UInt32.ofNat repl.status
  let ((next, output), trouble) := repl.feed prepared.desk line
  say output
  match trouble with
  | some trouble => crash trouble.label
  | none => converse prepared next

/-- The interaction on a terminal. -/
def interactive (host : Host) (options : Options) : IO UInt32 :=
  match host.prepare options with
  | .error fault => crash fault.label
  | .ok prepared => do
    write ⟨"", prepared.remarks⟩
    write ⟨Repl.greeting, ""⟩
    converse prepared (.start (host.session prepared.desk.config))

/-- A number of milliseconds as seconds with three places. -/
def seconds (milliseconds : Nat) : String :=
  let places := (toString (milliseconds % 1000)).toList
  let zeros := List.replicate (3 - places.length) '0'
  toString (milliseconds / 1000) ++ "." ++ String.ofList (zeros ++ places) ++ "s"

/-- A run that is not interactive. -/
def batch (host : Host) (arguments : List String) : IO UInt32 := do
  let start ← IO.monoMsNow
  let result := Shell.run host arguments
  write result.written
  let elapsed := (← IO.monoMsNow) - start
  if let some steps := result.steps then
    write (Output.dressed result.plain ⟨"", statistics steps (seconds elapsed)⟩)
  save host.files result.files
  match result.ending with
  | .exit status => return UInt32.ofNat status
  | .crash label => crash label

end Terminal
end StackCalc

open StackCalc Shell Terminal in
/-- Runs the calculator on the arguments of the command line. -/
def main (arguments : List String) : IO UInt32 := do
  let stdin ← IO.getStdin
  let terminal ← stdin.isTty
  let invocation := Invocation.ofArguments terminal arguments
  let environment ← readEnvironment
  let live := terminal && invocation.task = .interactive
  let input ← if !live && readsInput invocation.task then readAll stdin "" else pure ""
  let host : Host :=
    { environment := environment
      files := ← readFiles environment invocation
      terminal := terminal
      input := String.ofList (Text.unifyNewlines input.toList)
      seed := ← IO.rand 0 4611686018427387904
      note := fun fault => fault.label ++ ": " ++ fault.message
      corrupt := "it is not a TOML document" }
  if live then interactive host invocation.options else batch host arguments
