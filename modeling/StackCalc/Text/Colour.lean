/-
  StackCalc.Text.Colour

  Terminal colour codes: the escape character, an opening bracket, digits and
  semicolons, and the letter m.  `strip` removes every code of a text in one pass
  from left to right.
-/

namespace StackCalc
namespace Text
namespace Colour

/-- The escape character that starts a code. -/
def escape : Char := Char.ofNat 27

/-- The characters of the parameters of a code. -/
def isParameter (c : Char) : Bool :=
  c = ';' || (48 ≤ c.toNat && c.toNat ≤ 57)

/-- What follows the code that the text starts with, if it starts with one. -/
def afterCode? (s : List Char) : Option (List Char) :=
  match s with
  | first :: '[' :: rest =>
    if first = escape then
      match rest.dropWhile isParameter with
      | 'm' :: tail => some tail
      | _ => none
    else none
  | _ => none

theorem dropWhile_length_le (p : Char → Bool) (s : List Char) :
    (s.dropWhile p).length ≤ s.length :=
  (List.dropWhile_suffix p).length_le

theorem afterCode?_length {s t : List Char} (h : afterCode? s = some t) :
    t.length < s.length := by
  unfold afterCode? at h
  split at h
  · rename_i first rest
    split at h
    · split at h
      · rename_i tail eq
        cases h
        have := dropWhile_length_le isParameter rest
        rw [eq] at this
        simp only [List.length_cons] at this ⊢
        omega
      · cases h
    · cases h
  · cases h

/-- The text without its colour codes. -/
def stripped (s : List Char) : List Char :=
  match s with
  | [] => []
  | c :: rest =>
    match _h : afterCode? (c :: rest) with
    | some tail => stripped tail
    | none => c :: stripped rest
termination_by s.length
decreasing_by
  · exact afterCode?_length _h
  · simp

/-- A string without its colour codes. -/
def strip (s : String) : String :=
  String.ofList (stripped s.toList)

/-- A colour code with the given parameters. -/
def code (parameters : String) : String :=
  String.ofList [escape, '['] ++ parameters ++ "m"

/-- The code that ends all colours. -/
def reset : String := code "0"

/-- A text between a colour code and the end of colours. -/
def paint (parameters text : String) : String :=
  code parameters ++ text ++ reset

end Colour
end Text
end StackCalc
