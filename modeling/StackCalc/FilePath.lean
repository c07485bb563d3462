/-
  StackCalc.FilePath

  Paths as texts.  `normal` is how a path is written: without what leads nowhere.
  `walk` is how a path is followed, where a point and a slash at the end still ask for
  a directory; no step of a normal path does.
-/

namespace StackCalc
namespace FilePath

/-- The parts of a path between slashes. -/
def split (path : String) : List String :=
  (path.toList.splitBy fun a b => a ≠ '/' && b ≠ '/').filterMap fun part =>
    if part = ['/'] then none else some (String.ofList part)

/-- The parts of a path, without those that do not lead anywhere. -/
def parts (path : String) : List String :=
  (split path).filter (· ≠ ".")

/-- The start of an absolute path; exactly two slashes are kept. -/
def root (path : String) : String :=
  match path.toList with
  | '/' :: '/' :: '/' :: _ => "/"
  | '/' :: '/' :: _ => "//"
  | '/' :: _ => "/"
  | _ => ""

/-- A path without repeated slashes, a slash at the end, and parts that are just a
    point. -/
def normal (path : String) : String :=
  let text := root path ++ "/".intercalate (parts path)
  if text.isEmpty then "." else text

/-- Steps from the root, if a path is absolute, or from the working directory. -/
def anchored (path : String) (steps : List String) : List String :=
  if root path = "" then steps else "/" :: steps

/-- The steps to what a path names. -/
def steps (path : String) : List String :=
  anchored path (parts path)

/-- All steps that are taken to follow a path; a slash at the end counts as a point
    behind it. -/
def walk (path : String) : List String :=
  anchored path (split path ++ if path.toList.getLast? = some '/' then ["."] else [])

/-- The path of a list of steps. -/
def ofSteps : List String → String
  | "/" :: rest => "/" ++ "/".intercalate rest
  | all => "/".intercalate all

/-- The directories on the way to a path. -/
def directories (path : String) : List String :=
  (List.range (steps path).length).filterMap fun i =>
    if i = 0 then none else some (ofSteps ((steps path).take i))

/-- A path below another. -/
def join (directory name : String) : String :=
  if directory.toList.getLast? = some '/' then normal (directory ++ name)
  else normal (directory ++ "/" ++ name)

/-- How many bytes a path must stay below. -/
def byteLimit : Nat := 4096

/-- How many bytes a step may have. -/
def stepByteLimit : Nat := 255

/-- Whether a path holds the null character, which no path may. -/
def holdsNull (path : String) : Bool :=
  path.toList.contains '\x00'

end FilePath
end StackCalc
