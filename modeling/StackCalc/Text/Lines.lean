/-
  StackCalc.Text.Lines

  Three ways of looking at the lines of a text.  A file is read with every line
  end turned into a line feed and then has one line per line feed; a text that was
  typed in is shown line by line, where more characters end a line.
-/

namespace StackCalc
namespace Text

/-- Carriage returns, alone or before a line feed, turned into line feeds. -/
def unifyNewlines : List Char → List Char
  | [] => []
  | '\r' :: '\n' :: rest => '\n' :: unifyNewlines rest
  | '\r' :: rest => '\n' :: unifyNewlines rest
  | c :: rest => c :: unifyNewlines rest

/-- Characters other than the carriage return that end a line of typed text. -/
def isLineBreak (c : Char) : Bool :=
  let n := c.toNat
  (10 ≤ n && n ≤ 12) || (28 ≤ n && n ≤ 30) || n = 0x85 || n = 0x2028 || n = 0x2029

/-- The lines of a text that end at the characters `stop` accepts, each with its
    end; `line` holds the characters of the current line, last first. -/
def linesWith (stop : Char → Bool) (line : List Char) : List Char → List (List Char)
  | [] => if line.isEmpty then [] else [line.reverse]
  | c :: rest =>
    if stop c then (c :: line).reverse :: linesWith stop [] rest
    else linesWith stop (c :: line) rest

/-- The lines of a file, each with its line feed. -/
def fileLines (s : List Char) : List (List Char) :=
  linesWith (· = '\n') [] s

/-- The lines of typed text, each with its end; a carriage return directly before
    a line feed does not end a line of its own. -/
def typedLines (line : List Char) : List Char → List (List Char)
  | [] => if line.isEmpty then [] else [line.reverse]
  | '\r' :: '\n' :: rest => ('\n' :: '\r' :: line).reverse :: typedLines [] rest
  | c :: rest =>
    if isLineBreak c || c = '\r' then (c :: line).reverse :: typedLines [] rest
    else typedLines (c :: line) rest

/-- A line without the line feeds at its end. -/
def stripNewlines (line : List Char) : List Char :=
  (line.reverse.dropWhile (· = '\n')).reverse

end Text
end StackCalc
