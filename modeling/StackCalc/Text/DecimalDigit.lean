/-
  StackCalc.Text.DecimalDigit

  Decimal digits of every script.  The Unicode class of decimal digits consists of
  runs of ten, from zero to nine, so a table of the zeros determines the value of
  each digit.
-/

namespace StackCalc
namespace Text

/-- The code point of the digit zero in each script, in ascending order. -/
def digitZeros : List Nat :=
  [
   0x30, 0x660, 0x6F0, 0x7C0, 0x966, 0x9E6, 0xA66, 0xAE6, 0xB66, 0xBE6,
   0xC66, 0xCE6, 0xD66, 0xDE6, 0xE50, 0xED0, 0xF20, 0x1040, 0x1090, 0x17E0,
   0x1810, 0x1946, 0x19D0, 0x1A80, 0x1A90, 0x1B50, 0x1BB0, 0x1C40, 0x1C50, 0xA620,
   0xA8D0, 0xA900, 0xA9D0, 0xA9F0, 0xAA50, 0xABF0, 0xFF10, 0x104A0, 0x10D30, 0x11066,
   0x110F0, 0x11136, 0x111D0, 0x112F0, 0x11450, 0x114D0, 0x11650, 0x116C0, 0x11730, 0x118E0,
   0x11950, 0x11C50, 0x11D50, 0x11DA0, 0x16A60, 0x16AC0, 0x16B50, 0x1D7CE, 0x1D7D8, 0x1D7E2,
   0x1D7EC, 0x1D7F6, 0x1E140, 0x1E2F0, 0x1E950, 0x1FBF0]

/-- The value of a decimal digit of any script. -/
def digitValue? (c : Char) : Option Nat :=
  let n := c.toNat
  if n < 128 then
    if 48 ≤ n ∧ n ≤ 57 then some (n - 48) else none
  else
    (digitZeros.find? fun base => base ≤ n && n < base + 10).map (n - ·)

/-- Whether a character is a decimal digit of some script. -/
def isDigit (c : Char) : Bool :=
  (digitValue? c).isSome

theorem digitValue?_lt {c : Char} {d : Nat} (h : digitValue? c = some d) : d < 10 := by
  simp only [digitValue?] at h
  split at h
  · split at h
    · cases h; omega
    · cases h
  · obtain ⟨base, found, rfl⟩ := Option.map_eq_some_iff.1 h
    have := List.find?_some found
    simp only [Bool.and_eq_true, decide_eq_true_eq] at this
    omega

/-- The number that a run of decimal digits denotes; other characters are passed
    over. -/
def digitsValue (s : List Char) : Nat :=
  s.foldl (fun n c => match digitValue? c with
    | some d => n * 10 + d
    | none => n) 0

/-- How many decimal digits an integer may have to be read or shown. -/
def digitLimit : Nat := 4300

/-- Whether an integer has no more decimal digits than may be shown. -/
def isShowable (n : Int) : Bool :=
  n.natAbs < Nat.pow 10 digitLimit

end Text
end StackCalc
