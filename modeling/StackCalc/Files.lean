/-
  StackCalc.Files

  Files, and what their paths lead to.  A path is followed step by step, so that every
  step on the way has to be a directory; what goes wrong first is what is told.
-/

import StackCalc.FilePath
import StackCalc.Text.Lines
import StackCalc.Text.Quoted
import StackCalc.Text.Utf8

namespace StackCalc

/-! ## Entries -/

/-- What a path leads to: a text, a file that is no text, or a directory. -/
inductive FileEntry where
  | text (content : String)
  | undecodable (fault : Text.Utf8.Fault)
  | directory
deriving DecidableEq, Repr

/-- The entry of a file with these bytes. -/
def FileEntry.ofBytes (bytes : List UInt8) : FileEntry :=
  match Text.Utf8.decode bytes with
  | .ok content => text content
  | .error fault => undecodable fault

/-- The files that are known, with their paths; what is not listed is not there.  The
    working directory and those above it always are. -/
structure Files where
  entries : List (String × FileEntry)
deriving DecidableEq, Repr

/-! ## Trouble -/

/-- Why a file cannot be read or written. -/
inductive FileTrouble where
  | missing
  | notDirectory
  | isDirectory
  | nameTooLong
  | nullInPath
  | undecodable (fault : Text.Utf8.Fault)
deriving DecidableEq, Repr

/-- The class of a trouble with a file in reports. -/
def FileTrouble.label : FileTrouble → String
  | missing => "FileNotFoundError"
  | notDirectory => "NotADirectoryError"
  | isDirectory => "IsADirectoryError"
  | nameTooLong => "OSError"
  | nullInPath => "ValueError"
  | undecodable _ => "UnicodeDecodeError"

/-- The wording of a trouble with a file. -/
def FileTrouble.message (path : String) : FileTrouble → String
  | missing => "[Errno 2] No such file or directory: " ++ Text.quote path
  | notDirectory => "[Errno 20] Not a directory: " ++ Text.quote path
  | isDirectory => "[Errno 21] Is a directory: " ++ Text.quote path
  | nameTooLong => "[Errno 36] File name too long: " ++ Text.quote path
  | nullInPath => "embedded null byte"
  | undecodable fault => fault.message

/-- What the system says about a trouble that it finds. -/
def FileTrouble.reason? : FileTrouble → Option String
  | missing => some "No such file or directory"
  | notDirectory => some "Not a directory"
  | isDirectory => some "Is a directory"
  | nameTooLong => some "File name too long"
  | nullInPath | undecodable _ => none

namespace Files

/-! ## Following a path -/

/-- The entry with exactly these steps; a step of the way to an entry is a
    directory. -/
def at? (files : Files) (steps : List String) : Option FileEntry :=
  if steps = ["/"] || steps.all (· = "..") then some .directory
  else
    match files.entries.find? fun entry => FilePath.steps entry.1 = steps with
    | some (_, entry) => some entry
    | none =>
      if files.entries.any fun entry => steps.isPrefixOf (FilePath.steps entry.1) then
        some .directory
      else none

/-- The directory above another.  Above the working directory there is no name but
    two points, above the root there is nothing. -/
def above (here : List String) : List String :=
  match here.getLast? with
  | none => [".."]
  | some ".." => here ++ [".."]
  | some "/" => here
  | some _ => here.dropLast

/-- The place behind one more step from a directory. -/
def behind (here : List String) (step : String) : List String :=
  match step with
  | "." => here
  | ".." => above here
  | _ => here ++ [step]

/-- Takes steps from a directory. -/
def follow (files : Files) (here : List String) : List String → Except FileTrouble (List String)
  | [] => .ok here
  | step :: rest =>
    match files.at? here with
    | some .directory =>
      if FilePath.stepByteLimit < step.utf8ByteSize then .error .nameTooLong
      else files.follow (behind here step) rest
    | some _ => .error .notDirectory
    | none => .error .missing

/-- The place that a path leads to, whether there is anything or not; an empty path
    leads nowhere. -/
def resolve (files : Files) (path : String) : Except FileTrouble (List String) :=
  if FilePath.holdsNull path then .error .nullInPath
  else if FilePath.byteLimit ≤ path.utf8ByteSize then .error .nameTooLong
  else if path.isEmpty then .error .missing
  else files.follow [] (FilePath.walk path)

/-- The entry that a path leads to. -/
def look (files : Files) (path : String) : Except FileTrouble FileEntry :=
  match files.resolve path with
  | .error trouble => .error trouble
  | .ok steps =>
    match files.at? steps with
    | some entry => .ok entry
    | none => .error .missing

/-! ## Reading and writing -/

/-- Whether a path, in its normal form, leads to a file; of a name that is too long not
    even this can be told. -/
def isFile (files : Files) (path : String) : Except FileTrouble Bool :=
  match files.look (FilePath.normal path) with
  | .ok .directory => .ok false
  | .ok _ => .ok true
  | .error .nameTooLong => .error .nameTooLong
  | .error _ => .ok false

/-- The text of a file, with line feeds as its line ends. -/
def read (files : Files) (path : String) : Except FileTrouble String :=
  match files.look path with
  | .ok (.text content) => .ok (String.ofList (Text.unifyNewlines content.toList))
  | .ok (.undecodable fault) => .error (.undecodable fault)
  | .ok .directory => .error .isDirectory
  | .error trouble => .error trouble

/-- The files with a text written to a path, if its directory is there and it does
    not lead to a directory itself. -/
def write (files : Files) (path content : String) : Except FileTrouble Files :=
  match files.resolve path with
  | .error trouble => .error trouble
  | .ok steps =>
    match files.at? steps with
    | some .directory => .error .isDirectory
    | _ =>
      let others := files.entries.filter fun entry => FilePath.steps entry.1 ≠ steps
      .ok ⟨others ++ [(FilePath.ofSteps steps, .text content)]⟩

end Files
end StackCalc
