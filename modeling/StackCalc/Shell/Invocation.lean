/-
  StackCalc.Shell.Invocation

  The command line.  Only leading options are options of the calculator: from the
  first other argument on, everything belongs to the program that is run.
-/

namespace StackCalc
namespace Shell

/-- What the calculator is asked to do. -/
inductive Task where
  | arguments (words : List String)
  | script (path : String) (words : List String)
  | interactive
  | settings (write : Bool)
  | operations
  | version
  | usage (status : Nat)
  | noScript
deriving DecidableEq, Repr

/-- Options: how much is traced, whether steps are counted, whether colours are left
    out, and the file with the settings. -/
structure Options where
  verbosity : Nat
  stats : Bool
  plain : Bool
  config : Option String
deriving DecidableEq, Repr

/-- No option. -/
def Options.none : Options := ⟨0, false, false, Option.none⟩

/-- A command line: options and a task. -/
structure Invocation where
  options : Options
  task : Task
deriving DecidableEq, Repr

/-- The options with one more, if the argument is an option without a value. -/
def flag? (options : Options) (argument : String) : Option Options :=
  match argument with
  | "--verbose" => some { options with verbosity := options.verbosity + 1 }
  | "--stats" => some { options with stats := true }
  | "--plain" => some { options with plain := true }
  | "-p" => some { options with plain := true }
  | _ =>
    match argument.toList with
    | '-' :: 'v' :: rest =>
      if rest.all (· = 'v') then
        some { options with verbosity := options.verbosity + 1 + rest.length }
      else Option.none
    | _ => Option.none

/-- The leading options, and the arguments behind them. -/
def takeOptions (options : Options) : List String → Options × List String
  | [] => (options, [])
  | argument :: rest =>
    match flag? options argument with
    | some more => takeOptions more rest
    | Option.none =>
      match argument, rest with
      | "--config", path :: tail => takeOptions { options with config := some path } tail
      | _, _ => (options, argument :: rest)

/-- The task of running a file, which must be named. -/
def scriptTask : List String → Task
  | [] => .noScript
  | path :: words => .script path words

/-- The task of showing the settings; two dashes may end its options. -/
def settingsTask (arguments : List String) : Task :=
  let flags := arguments.takeWhile (· = "--write")
  match arguments.drop flags.length with
  | [] | ["--"] => .settings (!flags.isEmpty)
  | other => .usage (if other.head? = some "--help" then 0 else 2)

/-- The task of the arguments behind the options.  Without any, the program comes from
    the standard input, line by line if that is a terminal. -/
def taskOf (terminal : Bool) : List String → Task
  | [] => if terminal then .interactive else .script "-" []
  | "-r" :: _ => .interactive
  | "--repl" :: _ => .interactive
  | "-f" :: rest => scriptTask rest
  | "--file" :: rest => scriptTask rest
  | "help" :: _ => .operations
  | "--help" :: _ => .usage 0
  | "-h" :: _ => .usage 0
  | "version" :: _ => .version
  | "--version" :: _ => .version
  | "config" :: rest => settingsTask rest
  | words => .arguments words

/-- The command line of a list of arguments; `terminal` says whether the standard input
    is one. -/
def Invocation.ofArguments (terminal : Bool) (arguments : List String) : Invocation :=
  let (options, rest) := takeOptions .none arguments
  ⟨options, taskOf terminal rest⟩

end Shell
end StackCalc
