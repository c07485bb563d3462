/-
  StackCalc.Proofs.Scalars

  Numbers at the end of a line of a TOML document.  A literal is read whole and as the
  double that its decimal is nearest to, and none of it is taken for a date, a time or
  a number with a marker.
-/

import StackCalc.Proofs.Numerals
import StackCalc.Toml.Document

namespace StackCalc
namespace Toml

open StackCalc.Double

variable {p : Char → Bool} {c d : Char} {s rest tail digits among : List Char} {negative : Bool}
  {literal : Literal} {part : Option (Bool × List Char)} {room fuel : Nat}

/-! ## Runs of digits -/

/-- A text that begins with one of some characters. -/
def BeginsWith (among : List Char) (s : List Char) : Prop := ∃ c ∈ among, ∃ rest, s = c :: rest

theorem BeginsWith.of_subset {more : List Char} (h : BeginsWith among s) (sub : among ⊆ more) :
    BeginsWith more s := by
  obtain ⟨c, found, rest, rfl⟩ := h
  exact ⟨c, sub found, rest, rfl⟩

theorem moreDigits_append (h : ∀ c ∈ s, c.isDigit) (stop : BeginsWith ['.', 'e', '\n'] rest) :
    moreDigits isAsciiDigit (s ++ rest) = (s, rest) := by
  induction s with
  | nil =>
    obtain ⟨c, found, rest, rfl⟩ := stop
    have other : isAsciiDigit c = false ∧ c ≠ '_' := by fin_cases found <;> decide
    simp [moreDigits, other]
  | cons c s ih =>
    have digit : isAsciiDigit c := h c List.mem_cons_self
    have plain : c ≠ '_' := by
      rintro rfl
      contradiction
    simp [moreDigits, plain, digit, ih fun c found => h c (List.mem_cons_of_mem _ found)]

theorem digitRun_append (h : ∀ c ∈ digits, c.isDigit) (ne_nil : digits ≠ [])
    (stop : BeginsWith ['.', 'e', '\n'] rest) :
    digitRun isAsciiDigit (digits ++ rest) = some (digits, rest) := by
  obtain ⟨c, s, rfl⟩ := List.exists_cons_of_ne_nil ne_nil
  have digit : isAsciiDigit c := h c List.mem_cons_self
  rw [List.cons_append, digitRun, if_pos digit,
    moreDigits_append (fun c found => h c (List.mem_cons_of_mem _ found)) stop]

/-! ## Decimal numbers -/

/-- The digits of a fraction, if it has any. -/
def places? (digits : List Char) : Option (List Char) :=
  if digits = [] then none else some digits

theorem fraction_append (h : ∀ c ∈ digits, c.isDigit) (stop : BeginsWith ['e', '\n'] rest) :
    fraction (Literal.fractionText digits ++ rest) = (places? digits, rest) := by
  unfold Literal.fractionText places?
  by_cases empty : digits = []
  · obtain ⟨c, found, rest, rfl⟩ := stop
    have other : c ≠ '.' := by fin_cases found <;> decide
    rw [if_pos empty, if_pos empty, List.nil_append, fraction]
    simpa using other
  · rw [if_neg empty, if_neg empty, List.cons_append, fraction,
      digitRun_append h empty (stop.of_subset (by simp))]

theorem exponent_append (h : ∀ part' ∈ part, part'.2 ≠ [] ∧ ∀ c ∈ part'.2, c.isDigit)
    (tail : List Char) :
    exponent (Literal.exponentText part ++ '\n' :: tail)
      = (part.map fun part => Literal.power (some part), '\n' :: tail) := by
  cases part with
  | none => rfl
  | some part =>
    obtain ⟨ne_nil, all⟩ := h _ rfl
    obtain ⟨below, digits⟩ := part
    have run := digitRun_append all ne_nil ⟨'\n', by simp, tail, rfl⟩
    cases below <;>
      simp [Literal.exponentText, Literal.power, exponent, takeSign, run]

theorem ne_of_isDigit (h : c.isDigit) (other : d.isDigit = false) : c ≠ d := by
  rintro rfl
  rw [other] at h
  contradiction

theorem takeSign_signed (negative : Bool) (whole : IsWhole digits) (rest : List Char) :
    takeSign (signed negative digits ++ rest) = (negative, digits ++ rest) := by
  obtain ⟨c, more, rfl⟩ := List.exists_cons_of_ne_nil whole.ne_nil
  have digit : c.isDigit := whole.isDigit c List.mem_cons_self
  have minus : c ≠ '-' := ne_of_isDigit digit (by decide)
  have plus : c ≠ '+' := ne_of_isDigit digit (by decide)
  cases negative with
  | true => rfl
  | false => simp [signed, takeSign, minus, plus]

/-- A number is read up to the last of its digits before the point, and then its fraction and its
    exponent are. -/
theorem decimal?_append (negative : Bool) (whole : IsWhole digits)
    (stop : BeginsWith ['.', 'e', '\n'] rest) :
    decimal? (signed negative digits ++ rest) =
      let (places, behind) := fraction rest
      let (power, behind) := exponent behind
      if places.isNone && power.isNone then some (integer negative digits, behind)
      else
        let number : Numeral := ⟨negative, digits, places.getD [], power.getD 0⟩
        some (.ok (.real number.value), behind) := by
  rw [decimal?, takeSign_signed negative whole rest]
  dsimp only
  split
  · -- only a zero can be taken by itself, and then it is the whole number
    rename_i left zero
    have lead : digits.head? = some '0' := by
      rw [← List.head?_append_of_ne_nil _ whole.ne_nil, zero, List.head?_cons]
    rw [whole.no_leading_zero lead] at zero ⊢
    obtain ⟨-, rfl⟩ := List.cons.inj zero
    rfl
  · rw [digitRun_append whole.isDigit whole.ne_nil stop]
    rfl

theorem signed_append (negative : Bool) (s t : List Char) :
    signed negative (s ++ t) = signed negative s ++ t := by
  cases negative <;> rfl

/-- The parts behind the first digits of a literal, and the end of the line. -/
def behindWhole (literal : Literal) (tail : List Char) : List Char :=
  Literal.fractionText literal.fraction ++ (Literal.exponentText literal.exponent ++ '\n' :: tail)

theorem signed_text (negative : Bool) (literal : Literal) (tail : List Char) :
    signed negative literal.text ++ '\n' :: tail
      = signed negative literal.whole ++ behindWhole literal tail := by
  simp only [Literal.text, signed_append, behindWhole, List.append_assoc]

theorem exponentText_begins (part : Option (Bool × List Char)) (tail : List Char) :
    BeginsWith ['e', '\n'] (Literal.exponentText part ++ '\n' :: tail) := by
  cases part with
  | none => exact ⟨'\n', by simp, tail, rfl⟩
  | some part => exact ⟨'e', by simp, _, rfl⟩

theorem behindWhole_begins (literal : Literal) (tail : List Char) :
    BeginsWith ['.', 'e', '\n'] (behindWhole literal tail) := by
  unfold behindWhole Literal.fractionText
  split
  · exact (exponentText_begins literal.exponent tail).of_subset (by simp)
  · exact ⟨'.', by simp, _, rfl⟩

/-- The parts that are read off a literal denote its decimal. -/
theorem value_literal (negative : Bool) (literal : Literal) :
    Numeral.value ⟨negative, literal.whole, (places? literal.fraction).getD [],
        (literal.exponent.map fun part => Literal.power (some part)).getD 0⟩
      = ofDecimal negative literal.decimal := by
  have places : (places? literal.fraction).getD [] = literal.fraction := by
    unfold places?
    split <;> simp [*]
  have power : (literal.exponent.map fun part => Literal.power (some part)).getD 0
      = Literal.power literal.exponent := by
    cases literal.exponent <;> rfl
  rw [places, power]
  rfl

/-- A literal at the end of a line is read as a double. -/
theorem decimal?_literal (proper : literal.IsProper) (negative : Bool) (tail : List Char) :
    decimal? (signed negative literal.text ++ '\n' :: tail)
      = some (.ok (.real (ofDecimal negative literal.decimal)), '\n' :: tail) := by
  have places := fraction_append proper.fraction_digits (exponentText_begins literal.exponent tail)
  have power := exponent_append proper.exponent_digits tail
  have real : ((places? literal.fraction).isNone
      && (literal.exponent.map fun part => Literal.power (some part)).isNone) = false := by
    by_cases empty : literal.fraction = []
    · have powered := Option.isSome_iff_ne_none.2 (proper.not_integer empty)
      simp [powered]
    · simp [places?, empty]
  rw [signed_text, decimal?_append negative proper.whole (behindWhole_begins literal tail),
    behindWhole, places]
  dsimp only
  rw [power]
  dsimp only
  rw [real, value_literal]
  rfl

theorem toList_toString (n : Nat) : (toString n).toList = Nat.toDigits 10 n := by
  rw [Nat.toString_eq_ofList_toDigits, String.toList_ofList]

theorem toString_int (n : Int) :
    (toString n).toList = signed (n < 0) (Nat.toDigits 10 n.natAbs) := by
  cases n with
  | ofNat n => exact toList_toString n
  | negSucc n =>
    have text : toString (Int.negSucc n) = "-" ++ toString (n + 1) := rfl
    rw [text, String.toList_append, toList_toString, decide_eq_true (Int.negSucc_lt_zero n)]
    rfl

/-- An integer at the end of a line is read as such. -/
theorem decimal?_integer {n : Int} (short : (Nat.toDigits 10 n.natAbs).length ≤ Text.digitLimit)
    (tail : List Char) :
    decimal? ((toString n).toList ++ '\n' :: tail) = some (.ok (.integer n), '\n' :: tail) := by
  have read := decimal?_append (n < 0) (isWhole_toDigits n.natAbs) ⟨'\n', by simp, tail, rfl⟩
  have value : integer (n < 0) (Nat.toDigits 10 n.natAbs) = .ok (.integer n) := by
    rw [integer, if_neg (by omega), digitsValue_toDigits]
    have whole : (if decide (n < 0) = true then -(n.natAbs : Int) else n.natAbs) = n := by
      simp only [decide_eq_true_eq]
      split <;> omega
    exact congrArg (Except.ok ∘ Value.integer) whole
  rw [toString_int, ← value]
  exact read

/-! ## Dates, times and markers -/

/-- A fixed number of digits lies within a run of digits. -/
theorem fixedDigits?_within {count n : Nat} (all : ∀ c ∈ digits, c.isDigit)
    (stop : BeginsWith ['.', 'e', '\n'] rest)
    (h : fixedDigits? count (digits ++ rest) = some (n, s)) :
    ∃ more, (∀ c ∈ more, c.isDigit) ∧ s = more ++ rest := by
  simp only [fixedDigits?] at h
  split at h
  · rename_i fixed
    obtain ⟨-, rfl⟩ := Prod.mk.inj (Option.some.inj h)
    have within : count ≤ digits.length := by
      by_contra beyond
      obtain ⟨c, found, tail, rfl⟩ := stop
      have other : isAsciiDigit c = false := by fin_cases found <;> decide
      have reached : c ∈ (digits ++ c :: tail).take count :=
        List.mem_take_iff_getElem.2 ⟨digits.length, by simp; omega, by simp⟩
      have digit : isAsciiDigit c := by
        simp only [Bool.and_eq_true, List.all_eq_true] at fixed
        exact fixed.2 c reached
      rw [other] at digit
      contradiction
    refine ⟨digits.drop count, fun c found => all c (List.mem_of_mem_drop found), ?_⟩
    rw [List.drop_append_of_le_length within]
  · cases h

/-- No mark of a date or a time stands behind digits. -/
theorem expect?_behind_digits (all : ∀ c ∈ digits, c.isDigit)
    (stop : BeginsWith ['.', 'e', '\n'] rest)
    (mark : d ∈ ['-', ':']) : expect? [d] (digits ++ rest) = none := by
  have head : ∃ c tail, digits ++ rest = c :: tail ∧ c ≠ d := by
    cases digits with
    | nil =>
      obtain ⟨c, found, tail, rfl⟩ := stop
      refine ⟨c, tail, rfl, ?_⟩
      fin_cases found <;> fin_cases mark <;> decide
    | cons c digits =>
      refine ⟨c, digits ++ rest, rfl, ne_of_isDigit (all c List.mem_cons_self) ?_⟩
      fin_cases mark <;> decide
  obtain ⟨c, tail, text, other⟩ := head
  rw [text]
  simp [expect?, other.symm]

theorem fixedDigits?_minus (count : Nat) (s : List Char) :
    fixedDigits? (count + 1) ('-' :: s) = none := by
  simp [fixedDigits?, isAsciiDigit]

theorem moment?_number (negative : Bool) (all : ∀ c ∈ digits, c.isDigit)
    (stop : BeginsWith ['.', 'e', '\n'] rest) :
    moment? (signed negative digits ++ rest) = none := by
  have none : dayText? (signed negative digits ++ rest) = none := by
    cases negative with
    | true => simp [dayText?, signed, fixedDigits?_minus]
    | false =>
      cases year : fixedDigits? 4 (digits ++ rest) with
      | none => simp [dayText?, signed, year]
      | some found =>
        obtain ⟨more, all, behind⟩ := fixedDigits?_within all stop year
        have mark : expect? ['-'] (more ++ rest) = none := expect?_behind_digits all stop (by simp)
        simp [dayText?, signed, year, behind, mark]
  rw [moment?, none]
  rfl

theorem bounded?_within {low high n : Nat} (all : ∀ c ∈ digits, c.isDigit)
    (stop : BeginsWith ['.', 'e', '\n'] rest)
    (h : bounded? low high (digits ++ rest) = some (n, s)) :
    ∃ more, (∀ c ∈ more, c.isDigit) ∧ s = more ++ rest := by
  simp only [bounded?] at h
  split at h
  · rename_i fixed
    split at h
    · cases h
      exact fixedDigits?_within all stop fixed
    · cases h
  · cases h

theorem timeOfDay?_number (negative : Bool) (all : ∀ c ∈ digits, c.isDigit)
    (stop : BeginsWith ['.', 'e', '\n'] rest) :
    timeOfDay? (signed negative digits ++ rest) = none := by
  cases negative with
  | true => simp [timeOfDay?, bounded?, signed, fixedDigits?_minus]
  | false =>
    cases hour : bounded? 0 23 (digits ++ rest) with
    | none => simp [timeOfDay?, signed, hour]
    | some found =>
      obtain ⟨more, all, behind⟩ := bounded?_within all stop hour
      have mark : expect? [':'] (more ++ rest) = none := expect?_behind_digits all stop (by simp)
      simp [timeOfDay?, signed, hour, behind, mark]

/-- What stands second in a number, behind digits that may be only one. -/
theorem second_of_number (all : ∀ c ∈ digits, c.isDigit) (stop : BeginsWith ['.', 'e', '\n'] rest)
    (h : digits ++ rest = '0' :: d :: s) : d.isDigit ∨ d ∈ ['.', 'e', '\n'] := by
  obtain ⟨c, found, tail, rfl⟩ := stop
  -- the second character is what ends the digits, or a digit where there are two of them
  match digits with
  | [] =>
    obtain ⟨rfl, -⟩ := List.cons.inj h
    exact absurd found (by decide)
  | [_] =>
    obtain ⟨-, behind⟩ := List.cons.inj h
    obtain ⟨rfl, -⟩ := List.cons.inj behind
    exact .inr found
  | _ :: c' :: _ =>
    obtain ⟨-, behind⟩ := List.cons.inj h
    obtain ⟨rfl, -⟩ := List.cons.inj behind
    exact .inl (all _ (by simp))

theorem marked?_number (negative : Bool) (all : ∀ c ∈ digits, c.isDigit)
    (stop : BeginsWith ['.', 'e', '\n'] rest) :
    marked? (signed negative digits ++ rest) = none := by
  cases negative with
  | true => rfl
  | false =>
    change marked? (digits ++ rest) = none
    unfold marked?
    split
    all_goals first
      | rfl
      | rename_i text
        exact absurd (second_of_number all stop text) (by decide)

/-- Digits that end the line or go on as a literal are no date, no time and no number with a marker,
    so that they are what a decimal number is read as. -/
theorem scalar_number (negative : Bool) (all : ∀ c ∈ digits, c.isDigit)
    (stop : BeginsWith ['.', 'e', '\n'] rest) {found : Except Defect Value × List Char}
    (h : decimal? (signed negative digits ++ rest) = some found) :
    scalar (signed negative digits ++ rest) = found.1.map (·, found.2) := by
  rw [scalar, moment?_number negative all stop, timeOfDay?_number negative all stop,
    marked?_number negative all stop, h]

theorem scalar_literal (proper : literal.IsProper) (negative : Bool) (tail : List Char) :
    scalar (signed negative literal.text ++ '\n' :: tail)
      = .ok (.real (ofDecimal negative literal.decimal), '\n' :: tail) := by
  have read := decimal?_literal proper negative tail
  rw [signed_text] at read ⊢
  exact scalar_number negative proper.whole.isDigit (behindWhole_begins literal tail) read

theorem scalar_integer {n : Int} (short : (Nat.toDigits 10 n.natAbs).length ≤ Text.digitLimit)
    (tail : List Char) :
    scalar ((toString n).toList ++ '\n' :: tail) = .ok (.integer n, '\n' :: tail) := by
  have read := decimal?_integer short tail
  rw [toString_int] at read ⊢
  exact scalar_number _ (fun _ => isDigit_of_mem_toDigits) ⟨'\n', by simp, tail, rfl⟩ read

/-- Every double is read back from its shortest text. -/
theorem scalar_shortestIn (style : NumberStyle) (x : Float) (tail : List Char) :
    scalar (shortestIn style x ++ '\n' :: tail) = .ok (.real x, '\n' :: tail) := by
  cases h : shape x with
  | nan =>
    rw [shortestIn, h, shape_nan h]
    rfl
  | infinite negative =>
    rw [shortestIn, h, shape_infinite h]
    cases negative <;> rfl
  | finite negative mantissa exponent =>
    obtain ⟨literal, proper, text, value⟩ := shortestIn_finite style h
    rw [text, scalar_literal proper, value]

end Toml
end StackCalc
