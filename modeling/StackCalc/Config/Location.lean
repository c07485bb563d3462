/-
  StackCalc.Config.Location

  Where the settings are: the file that an environment variable names, with
  variables and the home directory filled in, or a file in the home directory.
-/

import StackCalc.Error

namespace StackCalc

/-- The environment variables. -/
structure Environment where
  bindings : List (String × String)
deriving DecidableEq, Repr

namespace Environment

/-- The value of a variable. -/
def get? (environment : Environment) (name : String) : Option String :=
  (environment.bindings.find? (·.1 = name)).map (·.2)

/-- The characters of the name of a variable. -/
def isNameChar (c : Char) : Bool := c.isAlphanum || c = '_'

/-- The reference behind a dollar sign, in braces or without: the name of the
    variable and the text behind the reference. -/
def reference? (s : List Char) : Option (List Char × List Char) :=
  match s with
  | '\x7b' :: rest =>
    match rest.dropWhile (· ≠ '\x7d') with
    | _ :: tail => some (rest.takeWhile (· ≠ '\x7d'), tail)
    | [] => none
  | _ =>
    let name := s.takeWhile isNameChar
    if name.isEmpty then none else some (name, s.dropWhile isNameChar)

/-- A text with its references filled in, once; a reference to a variable that is not
    set stays as it is.  At most `fuel` characters are looked at. -/
def expand (environment : Environment) : Nat → List Char → List Char
  | 0, s => s
  | _ + 1, [] => []
  | fuel + 1, '$' :: rest =>
    match reference? rest with
    | some (name, tail) =>
      let filled := match environment.get? (String.ofList name) with
        | some value => value.toList
        | none => '$' :: rest.take (rest.length - tail.length)
      filled ++ environment.expand fuel tail
    | none => '$' :: environment.expand fuel rest
  | fuel + 1, c :: rest => c :: environment.expand fuel rest

/-- The names of the variables that a text refers to.  At most `fuel` characters are
    looked at. -/
def references : Nat → List Char → List String
  | 0, _ => []
  | _ + 1, [] => []
  | fuel + 1, '$' :: rest =>
    match reference? rest with
    | some (name, tail) => String.ofList name :: references fuel tail
    | none => references fuel rest
  | fuel + 1, _ :: rest => references fuel rest

/-- The home directory of the administrator, which is also used where no other is
    known. -/
def systemHome : String := "/root"

/-- The home directory. -/
def home (environment : Environment) : String :=
  (environment.get? "HOME").getD systemHome

/-- A directory without slashes at its end. -/
def withoutFinalSlashes (path : String) : String :=
  String.ofList (path.toList.reverse.dropWhile (· = '/')).reverse

/-- A path with the tilde in front replaced by a home directory; the tilde may be
    followed by the name of an account. -/
def expandHome (environment : Environment) (path : String) : String :=
  match path.toList with
  | '~' :: rest =>
    let account := String.ofList (rest.takeWhile (· ≠ '/'))
    let tail := String.ofList (rest.dropWhile (· ≠ '/'))
    let directory? :=
      if account.isEmpty then some environment.home
      else if account = "root" then some systemHome
      else none
    match directory? with
    | some directory =>
      let full := withoutFinalSlashes directory ++ tail
      if full.isEmpty then "/" else full
    | none => path
  | _ => path

/-- The path of the file with the settings where no other is named: in the home
    directory, unless that is known by no more than a tilde. -/
def defaultConfigPath (environment : Environment) : Except Fault String :=
  let directory := environment.expandHome "~"
  if directory.toList.head? = some '~' then .error .homeUnknown
  else .ok (FilePath.join directory "comp.toml")

/-- The path of the file with the settings. -/
def configPath (environment : Environment) : Except Fault String :=
  match environment.get? "COMP_CONFIG" with
  | some path =>
    if path.isEmpty then environment.defaultConfigPath
    else
      let expanded := environment.expand (path.length + 1) path.toList
      .ok (FilePath.normal (environment.expandHome (String.ofList expanded)))
  | none => environment.defaultConfigPath

end Environment
end StackCalc
