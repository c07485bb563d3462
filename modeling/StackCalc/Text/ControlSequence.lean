/-
  StackCalc.Text.ControlSequence

  Terminal control sequences of every kind, of which colour codes are one: the escape
  character, an opening bracket, parameters, intermediate characters, and a final
  character, all of them printable ASCII.  `strip` removes every sequence of a text in
  one pass from left to right.
-/

import StackCalc.Text.Colour

namespace StackCalc
namespace Text
namespace ControlSequence

/-- The characters of the parameters of a sequence. -/
def isParameter (c : Char) : Bool :=
  0x30 ≤ c.toNat && c.toNat ≤ 0x3F

/-- The characters between the parameters and the final character. -/
def isIntermediate (c : Char) : Bool :=
  0x20 ≤ c.toNat && c.toNat ≤ 0x2F

/-- The characters that end a sequence. -/
def isFinal (c : Char) : Bool :=
  0x40 ≤ c.toNat && c.toNat ≤ 0x7E

/-- What follows the sequence whose introduction is read, if it is well-formed. -/
def afterIntroduction? (s : List Char) : Option (List Char) :=
  match (s.dropWhile isParameter).dropWhile isIntermediate with
  | final :: tail => if isFinal final then some tail else none
  | [] => none

theorem afterIntroduction?_length {s t : List Char} (h : afterIntroduction? s = some t) :
    t.length < s.length := by
  unfold afterIntroduction? at h
  split at h
  · rename_i final tail eq
    split at h
    · cases h
      have parameters := Colour.dropWhile_length_le isParameter s
      have intermediates := Colour.dropWhile_length_le isIntermediate (s.dropWhile isParameter)
      rw [eq] at intermediates
      simp only [List.length_cons] at intermediates
      omega
    · cases h
  · cases h

/-- What follows the sequence that the text starts with, if it starts with one. -/
def after? (s : List Char) : Option (List Char) :=
  match s with
  | first :: '[' :: rest => if first = Colour.escape then afterIntroduction? rest else none
  | _ => none

theorem after?_length {s t : List Char} (h : after? s = some t) : t.length < s.length := by
  unfold after? at h
  split at h
  · split at h
    · have := afterIntroduction?_length h
      simp only [List.length_cons]
      omega
    · cases h
  · cases h

/-- The text without its control sequences. -/
def stripped (s : List Char) : List Char :=
  match s with
  | [] => []
  | c :: rest =>
    match _h : after? (c :: rest) with
    | some tail => stripped tail
    | none => c :: stripped rest
termination_by s.length
decreasing_by
  · exact after?_length _h
  · simp

/-- A string without its control sequences. -/
def strip (s : String) : String :=
  String.ofList (stripped s.toList)

end ControlSequence
end Text
end StackCalc
