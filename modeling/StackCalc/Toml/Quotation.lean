/-
  StackCalc.Toml.Quotation

  The four forms of strings, and keys, whose parts may be strings.
-/

import StackCalc.Text.Quoted
import StackCalc.Toml.Reader

namespace StackCalc
namespace Toml

/-! ## Strings -/

/-- The value of a hexadecimal digit. -/
def hexValue? (c : Char) : Option Nat :=
  let n := c.toNat
  if 48 ≤ n && n ≤ 57 then some (n - 48)
  else if 97 ≤ n && n ≤ 102 then some (n - 87)
  else if 65 ≤ n && n ≤ 70 then some (n - 55)
  else none

/-- The character whose code point is given by a fixed number of digits. -/
def codePoint? (count : Nat) (s : List Char) : Option (Char × List Char) := do
  let digits := s.take count
  if digits.length < count then none
  let values ← digits.mapM hexValue?
  let n := values.foldl (· * 16 + ·) 0
  if n < 0xD800 || (0xE000 ≤ n && n < 0x110000) then some (Char.ofNat n, s.drop count)
  else none

/-- What an escape stands for; `s` follows the backslash.  In a text of several
    lines a backslash before the end of a line swallows all blanks that follow. -/
def escape? (multiline : Bool) (s : List Char) : Option (List Char × List Char) :=
  match s with
  | 'u' :: rest => (codePoint? 4 rest).map fun (c, tail) => ([c], tail)
  | 'U' :: rest => (codePoint? 8 rest).map fun (c, tail) => ([c], tail)
  | 'b' :: rest => some (['\x08'], rest)
  | 't' :: rest => some (['\t'], rest)
  | 'n' :: rest => some (['\n'], rest)
  | 'f' :: rest => some (['\x0c'], rest)
  | 'r' :: rest => some (['\r'], rest)
  | '"' :: rest => some (['"'], rest)
  | '\\' :: rest => some (['\\'], rest)
  | c :: rest =>
    if multiline && (isSpace c || c = '\n') then
      match (if c = '\n' then c :: rest else skipSpaces rest) with
      | [] => some ([], [])
      | '\n' :: tail => some ([], tail.dropWhile fun c => isSpace c || c = '\n')
      | _ => none
    else none
  | [] => none

/-- The rest of a string with escapes, behind its opening quotes; `done` holds its
    characters so far, last first. -/
def basicBody? (multiline : Bool) (done : List Char) : Nat → Reader (List Char)
  | 0, _ => none
  | fuel + 1, s =>
    match s with
    | [] => none
    | '"' :: rest =>
      if !multiline then some (done.reverse, rest)
      else match rest with
        | '"' :: '"' :: tail => some (done.reverse, tail)
        | _ => basicBody? multiline ('"' :: done) fuel rest
    | '\\' :: rest =>
      match escape? multiline rest with
      | some (chars, tail) => basicBody? multiline (chars.reverse ++ done) fuel tail
      | none => none
    | c :: rest =>
      if (if multiline then isStrictControl c else isControl c) then none
      else basicBody? multiline (c :: done) fuel rest

/-- The rest of a string without escapes on one line. -/
def literalBody? (s : List Char) : Option (List Char × List Char) :=
  let body := s.takeWhile (· ≠ Text.singleQuote)
  match s.dropWhile (· ≠ Text.singleQuote) with
  | _ :: rest => if body.any isControl then none else some (body, rest)
  | [] => none

/-- The rest of a string without escapes on several lines, up to three quotes. -/
def longLiteralBody? (done : List Char) : List Char → Option (List Char × List Char)
  | [] => none
  | c :: rest =>
    if c = Text.singleQuote && (rest.take 2 = [Text.singleQuote, Text.singleQuote]) then
      some (done.reverse, rest.drop 2)
    else if isStrictControl c then none
    else longLiteralBody? (c :: done) rest

/-- Up to two quotes more belong to a string that ends with three of them. -/
def extraQuotes (quote : Char) (body : List Char × List Char) : List Char × List Char :=
  let extra := (body.2.take 2).takeWhile (· = quote)
  (body.1 ++ extra, body.2.drop extra.length)

/-- A line end directly behind the opening quotes is no part of a string. -/
def dropFirstNewline : List Char → List Char
  | '\n' :: rest => rest
  | s => s

/-- A string of any of the four forms. -/
def string? (s : List Char) : Option (List Char × List Char) :=
  match s with
  | '"' :: '"' :: '"' :: rest =>
    (basicBody? true [] (rest.length + 1) (dropFirstNewline rest)).map (extraQuotes '"')
  | '"' :: rest => basicBody? false [] (rest.length + 1) rest
  | c :: rest =>
    if c = Text.singleQuote then
      if rest.take 2 = [Text.singleQuote, Text.singleQuote] then
        (longLiteralBody? [] (dropFirstNewline (rest.drop 2))).map (extraQuotes Text.singleQuote)
      else literalBody? rest
    else none
  | [] => none

/-! ## Keys -/

/-- The characters of a key without quotes. -/
def isBareKey (c : Char) : Bool := c.isAlphanum || c = '-' || c = '_'

/-- One part of a key: bare, or a string on one line. -/
def keyPart? (s : List Char) : Option (String × List Char) :=
  match s with
  | [] => none
  | c :: rest =>
    if isBareKey c then
      some (String.ofList (s.takeWhile isBareKey), s.dropWhile isBareKey)
    else if c = '"' then
      (basicBody? false [] (rest.length + 1) rest).map fun (body, tail) =>
        (String.ofList body, tail)
    else if c = Text.singleQuote then
      (literalBody? rest).map fun (body, tail) => (String.ofList body, tail)
    else none

/-- A key: parts with dots between them, and blanks around all of them. -/
def key? : Nat → Reader (List String)
  | 0, _ => none
  | fuel + 1, s => do
    let (part, rest) ← keyPart? s
    match skipSpaces rest with
    | '.' :: tail =>
      let (parts, tail) ← key? fuel (skipSpaces tail)
      some (part :: parts, tail)
    | tail => some ([part], tail)

end Toml
end StackCalc
