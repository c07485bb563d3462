/-
  StackCalc.Text.Column

  Texts in columns of a fixed width, counted in characters.
-/

namespace StackCalc
namespace Text

/-- Blanks in front, up to the width. -/
def alignRight (width : Nat) (s : String) : String :=
  String.ofList (List.replicate (width - s.length) ' ') ++ s

/-- Blanks behind, up to the width. -/
def alignLeft (width : Nat) (s : String) : String :=
  s ++ String.ofList (List.replicate (width - s.length) ' ')

/-- Of a text longer than `width` the first `width - 2` characters, a blank and an
    ellipsis; a width below two counts from the end of the text. -/
def cutEnd (width : Nat) (s : String) : String :=
  if s.length ≤ width then s
  else
    let kept := if width < 2 then s.length - (2 - width) else width - 2
    String.ofList (s.toList.take kept) ++ " …"

/-- Of a text longer than `width` an ellipsis, a blank and the last `width - 2`
    characters; a width of two or less counts from the start of the text. -/
def cutStart (width : Nat) (s : String) : String :=
  if s.length ≤ width then s
  else
    let dropped := if width ≤ 2 then 2 - width else s.length - (width - 2)
    "… " ++ String.ofList (s.toList.drop dropped)

end Text
end StackCalc
