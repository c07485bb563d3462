/-
  StackCalc.Shell.Program

  Running the program of a task: the settings are read, the program is run in a
  fresh session, and the stack that is left or the report of the error is written,
  with statistics if they are wanted.
-/

import StackCalc.Config.Settings
import StackCalc.Shell.Host

namespace StackCalc
namespace Shell

open StackCalc.Text

/-- What a run of a program comes to: its result and what was written on the way. -/
structure Ran where
  result : Except Error Stack
  output : Output
  steps : Nat

/-- What a step of a session contributes. -/
def Ran.of (outcome : Outcome Stack) : Ran :=
  ⟨outcome.result, ⟨outcome.printed, outcome.remarks⟩, outcome.steps.getD 0⟩

/-- A program and then, on its result, words from the command line. -/
def runBoth (first : Outcome Stack) (words : List String) (verbosity : Nat) : Ran :=
  let ran := Ran.of first
  match first.result, words with
  | .ok stack, _ :: _ =>
    let more := Ran.of (first.session.runWords words stack verbosity)
    ⟨more.result, ran.output.append more.output, ran.steps + more.steps⟩
  | _, _ => ran

/-- The end of a run of a program, with the stack that is left or the report of the
    error, and the steps to be counted in the statistics. -/
structure Conclusion where
  ending : Ending
  output : Output
  steps : Option Nat

/-- The conclusion of a run of a program. -/
def conclude (desk : Desk) (stats : Bool) (subject : Subject) (ran : Ran) : Conclusion :=
  match ran.result with
  | .ok stack =>
    let shown := showStack desk.config.showStackLevel desk.config.precision stack
    ⟨.exit 0, ran.output.append ⟨shown, ""⟩, if stats then some ran.steps else none⟩
  | .error error =>
    match errorReport desk.files desk.config.precision subject desk.note error with
    | .ok report => ⟨.exit 1, ran.output.append ⟨"", report⟩, none⟩
    | .error trouble => ⟨.crash trouble.label, ran.output, none⟩

/-- The text of a script as reports show it: nothing if it is not a file. -/
def scriptSource (files : Files) (path : String) : Except FileTrouble String :=
  match files.isFile path with
  | .error trouble => .error trouble
  | .ok true => files.read (FilePath.normal path)
  | .ok false => .ok ""

/-- The lines of the standard input, without their ends. -/
def Host.lines (host : Host) : List String :=
  (fileLines host.input.toList).map fun line => String.ofList (stripNewlines line)

/-- A session before the program of a task. -/
def Host.session (host : Host) (config : Config) : Session :=
  { Session.fresh config with seed := host.seed }

/-- Runs the program of a task in a fresh session. -/
def runProgram (host : Host) (desk : Desk) (options : Options) (task : Task) : Conclusion :=
  let session := host.session desk.config
  match task with
  | .arguments words =>
    conclude desk options.stats ⟨Session.argumentsName, " ".intercalate words⟩
      (.of (session.runWords words [] options.verbosity))
  | .script "-" words =>
    let first := session.run host.input [] (some "<STDIN>") options.verbosity
    conclude desk options.stats ⟨"<STDIN>", host.input⟩ (runBoth first words options.verbosity)
  | .script path words =>
    match scriptSource host.files path with
    | .error trouble => ⟨.crash trouble.label, .none, none⟩
    | .ok source =>
      let first := session.runFile host.files path [] options.verbosity
      conclude desk options.stats ⟨path, source⟩ (runBoth first words options.verbosity)
  | _ =>
    match (Repl.start session).interact desk ⟨Repl.greeting, ""⟩ host.lines with
    | ((repl, output), none) => ⟨.exit repl.status, output, none⟩
    | ((_, output), some trouble) => ⟨.crash trouble.label, output, none⟩

/-- A program that is about to run: the remarks on the settings, which come first and
    keep their colours, and whether all else is without colours. -/
structure Prepared where
  desk : Desk
  remarks : String
  plain : Bool

/-- Reads the settings for a program. -/
def Host.prepare (host : Host) (options : Options) : Except Fault Prepared :=
  match configPath host options with
  | .error fault => .error fault
  | .ok path =>
    (loadSettings host.files path host.corrupt).map fun loaded =>
      { desk := ⟨host.files, loaded.config, options.verbosity, host.note⟩
        remarks := loaded.remarks
        plain := options.plain || loaded.config.monochrome }

/-- Runs a program with the settings in effect. -/
def runWithSettings (host : Host) (options : Options) (task : Task) : Result :=
  match host.prepare options with
  | .error fault => .crashed fault.label host.files
  | .ok prepared =>
    let conclusion := runProgram host prepared.desk options task
    { ending := conclusion.ending
      written := Output.append ⟨"", prepared.remarks⟩ (conclusion.output.dressed prepared.plain)
      steps := conclusion.steps
      plain := prepared.plain
      files := host.files }

/-! ## Statistics -/

/-- A number with commas between groups of three digits. -/
def grouped (n : Nat) : String :=
  let digits := (Nat.toDigits 10 n).reverse
  let pairs := digits.mapIdx fun i c => if i % 3 = 0 && i ≠ 0 then [',', c] else [c]
  String.ofList pairs.flatten.reverse

/-- The statistics of a run. -/
def statistics (steps : Nat) (elapsed : String) : String :=
  "\n" ++ Colour.code "97" ++ Colour.code "48;5;30" ++ " STATISTICS. " ++ Colour.reset ++ "\n"
    ++ "step\t" ++ Colour.paint "97" (grouped steps) ++ "\n"
    ++ "time\t" ++ Colour.paint "97" elapsed ++ "\n"

/-- What a run writes, given the text of how long it took. -/
def Result.output (result : Result) (elapsed : String) : Output :=
  match result.steps with
  | some steps => result.written.append (Output.dressed result.plain ⟨"", statistics steps elapsed⟩)
  | none => result.written

end Shell
end StackCalc
