/-
  StackCalc.Config.Settings

  Settings as a file: how a configuration is written, and how a TOML document is
  read back.  A key of the file counts if its value has the right type and range,
  independently of all other keys; every other key gives a remark and the default.
-/

import StackCalc.Config
import StackCalc.Error
import StackCalc.Files
import StackCalc.Library
import StackCalc.Toml.Document

namespace StackCalc

/-! ## Writing -/

/-- The value of a setting. -/
inductive Setting.Value where
  | truth (b : Bool)
  | integer (n : Int)
  | real (x : Float)
  | absent
deriving DecidableEq, Repr

/-- A value as it is shown. -/
def Setting.Value.shown : Setting.Value → String
  | truth b => if b then "True" else "False"
  | integer n => toString n
  | real x => Double.shortest x
  | absent => "None"

/-- A value as it is written to a file. -/
def Setting.Value.written : Setting.Value → String
  | truth b => if b then "true" else "false"
  | value => value.shown

/-- All settings by name, in the order in which they are written. -/
def Config.settings (config : Config) : List (String × Setting.Value) :=
  [ ("show_stack_level", .truth config.showStackLevel),
    ("monochrome", .truth config.monochrome),
    ("conversion_constant", .real config.conversionConstant),
    ("tip_percentage", .real config.tipPercentage),
    ("show_warnings", .truth config.showWarnings),
    ("precision", match config.precision with
      | some places => .integer places
      | none => .absent) ]

/-- The text of a file with settings: a line for each that has a value. -/
def settingsText (settings : List (String × Setting.Value)) : String :=
  let lines := settings.filterMap fun (key, value) =>
    if value = .absent then none else some (key ++ " = " ++ value.written)
  "\n".intercalate lines ++ "\n"

/-- Writes settings to a file. -/
def saveSettings (settings : List (String × Setting.Value)) (files : Files) (path : String) :
    Except Error Files :=
  match files.write path (settingsText settings) with
  | .ok files => .ok files
  | .error trouble => .error (.ofFile path trouble)

/-! ## Reading -/

/-- What to do with an entry of the file. -/
inductive Entry where
  | accepted (change : Config → Config)
  | rejected
  | unknown
  | tooLarge

/-- A truth value for a flag. -/
def flagEntry (set : Bool → Config → Config) : Toml.Value → Entry
  | .truth b => .accepted (set b)
  | _ => .rejected

/-- A number for a factor; integers become doubles. -/
def factorEntry (set : Float → Config → Config) : Toml.Value → Entry
  | .real x => .accepted (set x)
  | .integer n =>
    match Double.ofInt? n with
    | some x => .accepted (set x)
    | none => .tooLarge
  | _ => .rejected

/-- A number of places, at most seventeen. -/
def precisionEntry : Toml.Value → Entry
  | .integer n =>
    if 0 ≤ n ∧ n ≤ 17 then .accepted fun config => { config with precision := some n.toNat }
    else .rejected
  | _ => .rejected

/-- What a key and its value do. -/
def entryOf (key : String) (value : Toml.Value) : Entry :=
  match key with
  | "show_stack_level" => flagEntry (fun b config => { config with showStackLevel := b }) value
  | "monochrome" => flagEntry (fun b config => { config with monochrome := b }) value
  | "show_warnings" => flagEntry (fun b config => { config with showWarnings := b }) value
  | "conversion_constant" =>
    factorEntry (fun x config => { config with conversionConstant := x }) value
  | "tip_percentage" => factorEntry (fun x config => { config with tipPercentage := x }) value
  | "precision" => precisionEntry value
  | _ => .unknown

/-- The remark on a value that a key of a file cannot have. -/
def invalidRemark (path key : String) (value : Toml.Value) : String :=
  "invalid value " ++ SourceProblem.ticked value.shown ++ " for " ++ SourceProblem.ticked key
    ++ " in " ++ SourceProblem.ticked path ++ ", using default"

/-- The remark on a key of a file that is no setting. -/
def unknownRemark (path key : String) : String :=
  "unknown key " ++ SourceProblem.ticked key ++ " in " ++ SourceProblem.ticked path ++ " ignored"

/-- The configuration and the remarks of the entries of a file, in order, beginning
    with those before them. -/
def readEntries (path : String) (config : Config) (remarks : List String) :
    Toml.Entries → Except Fault (Config × List String)
  | [] => .ok (config, remarks)
  | (key, value) :: rest =>
    match entryOf key value with
    | .accepted change => readEntries path (change config) remarks rest
    | .rejected =>
      if value.isShowable then
        readEntries path config (remarks ++ [invalidRemark path key value]) rest
      else .error (.longInteger none)
    | .unknown => readEntries path config (remarks ++ [unknownRemark path key]) rest
    | .tooLarge => .error .settingTooLarge

/-- A configuration, and what is printed about the file that it comes from. -/
structure Loaded where
  config : Config
  remarks : String
deriving DecidableEq, Repr

/-- The remark on a file that cannot be used; `note` is its last part. -/
def corruptRemark (path note : String) : String :=
  warningLine <| "configuration file " ++ SourceProblem.ticked path
    ++ " (ignored) is corrupt or incorrectly constructed: " ++ note

/-- The remark on a file that is there but cannot be read. -/
def unreadRemark (path reason : String) : String :=
  warningLine <| "configuration file " ++ SourceProblem.ticked path
    ++ " (ignored) could not be read: " ++ reason

/-- The configuration of a document.  Remarks are printed unless the resulting settings
    say otherwise. -/
def Loaded.ofEntries (path : String) (entries : Toml.Entries) : Except Fault Loaded :=
  (readEntries path .default [] entries).map fun (config, remarks) =>
    ⟨config, if config.showWarnings then String.join (remarks.map warningLine) else ""⟩

/-- What is loaded from a file that is there but cannot be read: one whose bytes are no
    text is corrupt, and what the system says about any other is remarked. -/
def Loaded.ofTrouble (path note : String) : FileTrouble → Except Fault Loaded
  | .undecodable _ => .ok ⟨.default, corruptRemark path note⟩
  | trouble =>
    match trouble.reason? with
    | some reason => .ok ⟨.default, unreadRemark path reason⟩
    | none => .error (.file path trouble)

/-- Reads the settings of a file: the defaults if there is no such file, if it cannot be
    read, or if it is no TOML document.  The path is in its normal form; no file of `Files`
    is closed to its reader, so it is only by their bytes that files cannot be read. -/
def loadSettings (files : Files) (path note : String) : Except Fault Loaded :=
  match files.isFile path with
  | .error trouble => .error (.file path trouble)
  | .ok false => .ok ⟨.default, ""⟩
  | .ok true =>
    match files.read path with
    | .error trouble => Loaded.ofTrouble path note trouble
    | .ok source =>
      match Toml.document source with
      | .ok entries => Loaded.ofEntries path entries
      | .error .malformed => .ok ⟨.default, corruptRemark path note⟩
      | .error (.longInteger digits) => .error (.longInteger (some digits))
      | .error .tooDeep => .error .tooDeep

end StackCalc
