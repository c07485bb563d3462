/-
  StackCalc.Shell.Host

  What the surroundings contribute to a run of the calculator, given in `Host`, and
  what becomes of a run, in `Result`.
-/

import StackCalc.Config.Location
import StackCalc.Shell.Invocation
import StackCalc.Shell.Repl

namespace StackCalc
namespace Shell

/-- The surroundings of a run: the environment, the files, whether the standard input
    is a terminal, the standard input with line feeds as its line ends, where the
    random numbers start, what is noted about a fault, and what is noted about a
    file that is no TOML document. -/
structure Host where
  environment : Environment
  files : Files
  terminal : Bool
  input : String
  seed : Nat
  note : Fault → String
  corrupt : String

/-- How a run ends: with an exit status, or by trouble that nothing reports. -/
inductive Ending where
  | exit (status : Nat)
  | crash (label : String)
deriving DecidableEq, Repr

/-- A run as it is seen from outside: its end, what it writes but for the
    statistics, the number of steps if statistics are wanted, whether colours are
    left out of them, and the files behind it. -/
structure Result where
  ending : Ending
  written : Output
  steps : Option Nat
  plain : Bool
  files : Files
deriving DecidableEq, Repr

/-- A run without statistics. -/
def Result.of (ending : Ending) (written : Output) (files : Files) : Result :=
  ⟨ending, written, none, false, files⟩

/-- A run that ends by trouble before anything is written. -/
def Result.crashed (label : String) (files : Files) : Result :=
  .of (.crash label) .none files

/-- The path of the file with the settings. -/
def configPath (host : Host) (options : Options) : Except Fault String :=
  match options.config with
  | some path => .ok (FilePath.normal path)
  | none => host.environment.configPath

end Shell
end StackCalc
