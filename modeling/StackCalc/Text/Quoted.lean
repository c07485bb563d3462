/-
  StackCalc.Text.Quoted

  Quoted texts, as they appear inside the brackets of a shown block and in
  messages: single quotes unless the text holds a single quote and no double one,
  a backslash before the quote and itself, and escapes for what is not printable.
-/

import StackCalc.Text.Printable

namespace StackCalc
namespace Text

/-- The last `width` lower-case hexadecimal digits of a number. -/
def hexDigits (width n : Nat) : List Char :=
  ((List.range width).map fun i => Nat.digitChar (n / Nat.pow 16 i % 16)).reverse

/-- The written form of one character between quotes of the kind `quote`. -/
def escaped (quote c : Char) : List Char :=
  if c = quote || c = '\\' then ['\\', c]
  else if c = '\n' then ['\\', 'n']
  else if c = '\r' then ['\\', 'r']
  else if c = '\t' then ['\\', 't']
  else if isPrintable c then [c]
  else if c.toNat < 0x100 then '\\' :: 'x' :: hexDigits 2 c.toNat
  else if c.toNat < 0x10000 then '\\' :: 'u' :: hexDigits 4 c.toNat
  else '\\' :: 'U' :: hexDigits 8 c.toNat

/-- The single quote. -/
def singleQuote : Char := Char.ofNat 39

/-- The quote that needs the fewest escapes: the double quote only for a text
    with a single quote and without a double one. -/
def quoteFor (s : List Char) : Char :=
  if s.contains singleQuote && !s.contains '"' then '"' else singleQuote

/-- A text in quotes. -/
def quoted (s : List Char) : List Char :=
  let quote := quoteFor s
  quote :: s.flatMap (escaped quote) ++ [quote]

/-- A string in quotes. -/
def quote (s : String) : String :=
  String.ofList (quoted s.toList)

end Text
end StackCalc
