/-
  StackCalc.Shell.Run

  A whole run of the calculator from its command line: what it writes, the files
  it changes, and how it ends.
-/

import StackCalc.Shell.NameTable
import StackCalc.Shell.Program
import StackCalc.Text.ControlSequence

namespace StackCalc
namespace Shell

open StackCalc.Text

/-! ## Settings -/

/-- The path of the settings that are shown; an empty path counts as none. -/
def shownPath (host : Host) (options : Options) : Except Fault String :=
  match options.config with
  | some "" => host.environment.configPath
  | _ => configPath host options

/-- The listing of settings, below the path that they come from. -/
def listing (path : String) (found : Bool) (config : Config) : String :=
  let title := "# " ++ path ++ if found then "" else " (not found, showing defaults)"
  let lines := config.settings.map fun (key, value) => key ++ " = " ++ value.shown ++ "\n"
  title ++ "\n" ++ String.join lines

/-- Shows the settings of a file, and saves them if that is asked for.  A path may hold
    control sequences, which are not shown. -/
def showSettings (host : Host) (path : String) (found write : Bool) (loaded : Loaded) : Result :=
  let shown := ControlSequence.strip (listing path found loaded.config)
  let saved := ControlSequence.strip ("# saved to " ++ path ++ "\n")
  if write then
    match saveSettings loaded.config.settings host.files path with
    | .ok files => .of (.exit 0) ⟨shown ++ saved, loaded.remarks⟩ files
    | .error (.failure failure) =>
      .of (.exit 1) ⟨shown, loaded.remarks ++ "Error: " ++ failure.cause.message ++ "\n"⟩ host.files
    | .error (.fault fault) => .of (.crash fault.label) ⟨shown, loaded.remarks⟩ host.files
  else .of (.exit 0) ⟨shown, loaded.remarks⟩ host.files

/-- Shows the settings in effect. -/
def settingsRun (host : Host) (options : Options) (write : Bool) : Result :=
  let loaded := do
    let path ← shownPath host options
    return (path, ← loadSettings host.files path host.corrupt)
  match loaded with
  | .error fault => .crashed fault.label host.files
  | .ok (path, loaded) =>
    match host.files.isFile path with
    | .error trouble => .crashed trouble.label host.files
    | .ok found => showSettings host path found write loaded

/-! ## Whole runs -/

/-- The version of the calculator. -/
def version : String := "0.4.0"

/-- How the calculator is called. -/
def usage : String :=
  String.join
    [ "Usage: comp [OPTIONS] PROGRAM...\n",
      "       comp [OPTIONS] -f FILE [PROGRAM...]\n",
      "       comp [OPTIONS] -r\n",
      "       comp [OPTIONS] config [--write]\n",
      "       comp help | version\n",
      "\n",
      "Options:\n",
      "  -v, --verbose  Trace the run, repeat for every step.\n",
      "  --stats        Show how many steps the run took.\n",
      "  -p, --plain    Leave out colours.\n",
      "  --config FILE  Read the settings from a file.\n" ]

/-- A run of a task that reads the settings, or that could. -/
def perform (host : Host) (options : Options) (task : Task) : Result :=
  match task with
  | .operations =>
    let table := nameTable Library.fresh.names (terminalWidth host.environment)
    .of (.exit 0) ⟨table, ""⟩ host.files
  | .settings write => settingsRun host options write
  | _ => runWithSettings host options task

/-- What is wrong with the path that is given for the settings, before it is used: no file
    can have it, or it is a directory. -/
def optionTrouble (host : Host) (options : Options) : Option FileTrouble :=
  match options.config.map host.files.look with
  | some (.error .nullInPath) => some .nullInPath
  | some (.ok .directory) => some .isDirectory
  | _ => none

/-- A run of the calculator from its arguments. -/
def run (host : Host) (arguments : List String) : Result :=
  let ⟨options, task⟩ := Invocation.ofArguments host.terminal arguments
  match task with
  | .version => .of (.exit 0) ⟨"comp, version " ++ version ++ "\n", ""⟩ host.files
  | .usage status => .of (.exit status) ⟨usage, ""⟩ host.files
  | .noScript => .of (.exit 1) ⟨"", "Expected file name after -f.\n"⟩ host.files
  | _ =>
    match optionTrouble host options with
    | some .isDirectory => .of (.exit 2) ⟨"", usage⟩ host.files
    | some trouble => .crashed trouble.label host.files
    | none => perform host options task

end Shell
end StackCalc
