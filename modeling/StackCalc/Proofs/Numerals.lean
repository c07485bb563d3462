/-
  StackCalc.Proofs.Numerals

  How digits are laid out as a number, whatever the style.  A literal holds the parts
  of such a text; the text of every finite double is that of a literal, whose decimal
  reads back to the double.
-/

import StackCalc.Proofs.Decimals

namespace StackCalc
namespace Double

open StackCalc.Text

variable {x : Float} {style : NumberStyle} {negative : Bool} {mantissa exponent : Nat}
  {digits s t : List Char} {point : Int}

/-! ## Digits -/

theorem digitValue?_of_isDigit {c : Char} (h : c.isDigit) :
    digitValue? c = some (c.toNat - 48) := by
  have bounds : 48 ≤ c.toNat ∧ c.toNat ≤ 57 := by
    simpa [Char.isDigit, UInt32.le_iff_toNat_le] using h
  have ascii : c.toNat < 128 := by omega
  simp only [digitValue?, if_pos ascii, if_pos bounds]

theorem digitsValue_append_digit {c : Char} (s : List Char) (h : c.isDigit) :
    digitsValue (s ++ [c]) = 10 * digitsValue s + (c.toNat - 48) := by
  rw [digitsValue, List.foldl_concat, digitValue?_of_isDigit h, Nat.mul_comm 10]
  rfl

theorem digitsValue_eq (h : ∀ c ∈ s, c.isDigit) : digitsValue s = Nat.ofDigitChars 10 s 0 := by
  induction s using List.reverseRecOn with
  | nil => rfl
  | append_singleton s c ih =>
    rw [digitsValue_append_digit s (h c (by simp)), ih fun c found => h c (by simp [found]),
      Nat.ofDigitChars_append, Nat.ofDigitChars_cons]
    rfl

theorem isDigit_of_mem_toDigits {n : Nat} {c : Char} (h : c ∈ Nat.toDigits 10 n) : c.isDigit :=
  Nat.isDigit_of_mem_toDigits (by decide) (by decide) h

@[simp]
theorem digitsValue_toDigits (n : Nat) : digitsValue (Nat.toDigits 10 n) = n :=
  (digitsValue_eq fun _ => isDigit_of_mem_toDigits).trans Nat.ofDigitChars_ten_toDigits

@[simp]
theorem digitsValue_append_zeros (s : List Char) (k : Nat) :
    digitsValue (s ++ List.replicate k '0') = digitsValue s * 10 ^ k := by
  induction k with
  | zero => simp
  | succ k ih =>
    rw [List.replicate_succ', ← List.append_assoc, digitsValue_append_digit _ (by decide), ih,
      Nat.pow_succ', Nat.mul_left_comm]
    rfl

@[simp]
theorem digitsValue_zeros_append (k : Nat) (s : List Char) :
    digitsValue (List.replicate k '0' ++ s) = digitsValue s := by
  induction k with
  | zero => rfl
  | succ k ih => exact ih

/-- A positive number does not begin with a zero. -/
theorem toDigits_eq_cons {n : Nat} (h : 0 < n) :
    ∃ c rest, Nat.toDigits 10 n = c :: rest ∧ c ≠ '0' := by
  induction n using Nat.strong_induction_on with
  | _ n ih =>
    rcases Nat.lt_or_ge n 10 with small | large
    · refine ⟨n.digitChar, [], Nat.toDigits_of_lt_base small, ?_⟩
      rw [ne_eq, Nat.digitChar_eq_zero]
      omega
    · obtain ⟨c, rest, digits, positive⟩ := ih (n / 10) (by omega) (by omega)
      exact ⟨c, rest ++ [(n % 10).digitChar],
        by rw [Nat.toDigits_of_base_le (by decide) large, digits, List.cons_append], positive⟩

/-- Digits are those without the zeros at the end, and these zeros. -/
theorem exists_withoutFinalZeros (digits : List Char) :
    ∃ k, withoutFinalZeros digits ++ List.replicate k '0' = digits := by
  have zeros : digits.reverse.takeWhile (· = '0')
      = List.replicate (digits.reverse.takeWhile (· = '0')).length '0' :=
    List.eq_replicate_of_mem fun c found => by simpa using List.mem_takeWhile_imp found
  refine ⟨(digits.reverse.takeWhile (· = '0')).length, ?_⟩
  rw [← List.reverse_inj, List.reverse_append, List.reverse_replicate, ← zeros, withoutFinalZeros,
    List.reverse_reverse, List.takeWhile_append_dropWhile]

/-- The digits of a whole number: there are some, and no zero leads others. -/
structure IsWhole (digits : List Char) : Prop where
  ne_nil : digits ≠ []
  isDigit : ∀ c ∈ digits, c.isDigit
  no_leading_zero : digits.head? = some '0' → digits = ['0']

theorem isWhole_toDigits (n : Nat) : IsWhole (Nat.toDigits 10 n) where
  ne_nil := Nat.toDigits_ne_nil
  isDigit _ := isDigit_of_mem_toDigits
  no_leading_zero zero := by
    rcases Nat.eq_zero_or_pos n with rfl | positive
    · rfl
    · obtain ⟨c, rest, digits, other⟩ := toDigits_eq_cons positive
      rw [digits, List.head?_cons, Option.some_inj] at zero
      contradiction

/-! ## Literals -/

/-- The parts of a written number without its sign: the digits before and after the point, where
    there is no point without digits behind it, and the sign and the digits of an exponent. -/
structure Literal where
  whole : List Char
  fraction : List Char
  exponent : Option (Bool × List Char)

namespace Literal

/-- The text of a fraction. -/
def fractionText (fraction : List Char) : List Char :=
  if fraction = [] then [] else '.' :: fraction

/-- The text of an exponent. -/
def exponentText : Option (Bool × List Char) → List Char
  | none => []
  | some (negative, digits) => 'e' :: (if negative then '-' else '+') :: digits

/-- The power of ten that an exponent stands for. -/
def power : Option (Bool × List Char) → Int
  | none => 0
  | some (negative, digits) => if negative then -(digitsValue digits : Int) else digitsValue digits

/-- The text of a literal. -/
def text (literal : Literal) : List Char :=
  literal.whole ++ fractionText literal.fraction ++ exponentText literal.exponent

/-- The decimal that a literal denotes. -/
def decimal (literal : Literal) : Decimal :=
  ⟨digitsValue (literal.whole ++ literal.fraction),
    (literal.fraction.length : Int) - power literal.exponent⟩

/-- The parts are digits, and the literal is not that of an integer. -/
structure IsProper (literal : Literal) : Prop where
  whole : IsWhole literal.whole
  fraction_digits : ∀ c ∈ literal.fraction, c.isDigit
  exponent_digits : ∀ part ∈ literal.exponent, part.2 ≠ [] ∧ ∀ c ∈ part.2, c.isDigit
  not_integer : literal.fraction = [] → literal.exponent ≠ none

end Literal

/-! ## Layouts -/

/-- The literal of digits with the decimal point at `point`. -/
def positionalLiteral (digits : List Char) (point : Int) : Literal :=
  if point ≤ 0 then ⟨['0'], List.replicate (-point).toNat '0' ++ digits, none⟩
  else if digits.length ≤ point.toNat then
    ⟨digits ++ List.replicate (point.toNat - digits.length) '0', ['0'], none⟩
  else ⟨digits.take point.toNat, digits.drop point.toNat, none⟩

/-- The literal of digits with one of them before the point. -/
def scientificLiteral (width : Nat) (digits : List Char) (exponent : Int) : Literal :=
  let written := Nat.toDigits 10 exponent.natAbs
  ⟨digits.take 1, digits.drop 1,
    some (exponent < 0, List.replicate (width - written.length) '0' ++ written)⟩

/-- The literal of digits with the decimal point at `point` in a style. -/
def NumberStyle.literal (style : NumberStyle) (digits : List Char) (point : Int) : Literal :=
  if style.low ≤ point - 1 && point - 1 < style.high then positionalLiteral digits point
  else scientificLiteral style.exponentWidth digits (point - 1)

theorem positionalLiteral_text (h : digits ≠ []) (point : Int) :
    (positionalLiteral digits point).text = positional digits point := by
  unfold positionalLiteral positional
  by_cases low : point ≤ 0
  · rw [if_pos low, if_pos low]
    simp [Literal.text, Literal.fractionText, Literal.exponentText, h]
  rw [if_neg low, if_neg low]
  by_cases whole : digits.length ≤ point.toNat
  · simp [Literal.text, Literal.fractionText, Literal.exponentText, whole]
  · have behind : digits.drop point.toNat ≠ [] := by simpa using whole
    simp only [Literal.text, Literal.fractionText, Literal.exponentText, if_neg whole,
      if_neg behind, List.append_nil]

theorem scientificLiteral_text (width : Nat) (h : digits ≠ []) (exponent : Int) :
    (scientificLiteral width digits exponent).text = scientific width digits exponent := by
  obtain ⟨c, rest, rfl⟩ := List.exists_cons_of_ne_nil h
  cases rest <;>
    simp [scientificLiteral, scientific, Literal.text, Literal.fractionText, Literal.exponentText]

/-- A layout is the text of its literal. -/
theorem NumberStyle.literal_text (style : NumberStyle) (h : digits ≠ []) (point : Int) :
    (style.literal digits point).text = style.layOut digits point := by
  unfold NumberStyle.literal NumberStyle.layOut
  split
  · exact positionalLiteral_text h point
  · exact scientificLiteral_text _ h _

theorem positionalLiteral_bits (digits : List Char) (point : Int) :
    (positionalLiteral digits point).decimal.bits
      = Decimal.bits ⟨digitsValue digits, digits.length - point⟩ := by
  unfold positionalLiteral
  split
  · rename_i low
    -- the zero before the point and those behind it
    have value := digitsValue_zeros_append ((-point).toNat + 1) digits
    have places : ((List.replicate (-point).toNat '0' ++ digits).length : Int)
        = digits.length - point := by
      rw [List.length_append, List.length_replicate]
      omega
    simp only [Literal.decimal, Literal.power, Int.sub_zero, places]
    rw [← value]
    rfl
  split
  · rename_i positive whole
    -- the zeros up to the point, and the one behind it
    have value := digitsValue_append_zeros digits (point.toNat - digits.length + 1)
    have places : (digits.length : Int) - point + (point.toNat - digits.length + 1 : Nat) = 1 := by
      omega
    have scaled := Decimal.bits_scaled ⟨digitsValue digits, digits.length - point⟩
      (point.toNat - digits.length + 1)
    rw [← scaled, Decimal.scaled, ← value, places, List.replicate_succ', ← List.append_assoc]
    rfl
  · rename_i positive behind
    have places : ((digits.drop point.toNat).length : Int) = digits.length - point := by
      rw [List.length_drop]
      omega
    simp only [Literal.decimal, Literal.power, List.take_append_drop, Int.sub_zero, places]

theorem scientificLiteral_bits (width : Nat) (h : digits ≠ []) (exponent : Int) :
    (scientificLiteral width digits exponent).decimal
      = ⟨digitsValue digits, digits.length - (exponent + 1)⟩ := by
  have length : 0 < digits.length := List.length_pos_iff.2 h
  simp only [scientificLiteral, Literal.decimal, Literal.power, List.take_append_drop,
    digitsValue_zeros_append, digitsValue_toDigits, List.length_drop, decide_eq_true_eq]
  congr 1
  split <;> omega

/-- The literal of a layout denotes the digits with their point. -/
theorem NumberStyle.literal_bits (style : NumberStyle) (h : digits ≠ []) (point : Int) :
    (style.literal digits point).decimal.bits
      = Decimal.bits ⟨digitsValue digits, digits.length - point⟩ := by
  unfold NumberStyle.literal
  split
  · exact positionalLiteral_bits digits point
  · rw [scientificLiteral_bits _ h, Int.sub_add_cancel]

theorem forall_isDigit_zeros (k : Nat) : ∀ c ∈ List.replicate k '0', c.isDigit := by
  intro c found
  rw [List.eq_of_mem_replicate found]
  rfl

theorem positionalLiteral_isProper (h : digits ≠ []) (all : ∀ c ∈ digits, c.isDigit)
    (lead : digits.head? ≠ some '0') (point : Int) : (positionalLiteral digits point).IsProper := by
  unfold positionalLiteral
  split
  · exact
      { whole := ⟨by simp, by simp, fun _ => rfl⟩
        fraction_digits := List.forall_mem_append.2 ⟨forall_isDigit_zeros _, all⟩
        exponent_digits := by simp
        not_integer := by simp [h] }
  split
  · rename_i positive whole
    have begins (zeros : List Char) : (digits ++ zeros).head? ≠ some '0' := by
      rwa [List.head?_append_of_ne_nil _ h]
    exact
      { whole :=
          ⟨by simp [h], List.forall_mem_append.2 ⟨all, forall_isDigit_zeros _⟩,
            fun zero => absurd zero (begins _)⟩
        fraction_digits := by simp
        exponent_digits := by simp
        not_integer := by simp }
  · rename_i positive behind
    have begins : (digits.take point.toNat).head? ≠ some '0' := by
      rwa [List.head?_take, if_neg (by omega)]
    have some : point.toNat ≠ 0 := by omega
    exact
      { whole :=
          ⟨by simp [h, some], fun c found => all c (List.mem_of_mem_take found),
            fun zero => absurd zero begins⟩
        fraction_digits := fun c found => all c (List.mem_of_mem_drop found)
        exponent_digits := by simp
        not_integer := fun none => absurd (List.drop_eq_nil_iff.1 none) behind }

theorem scientificLiteral_isProper (width : Nat) (h : digits ≠ []) (all : ∀ c ∈ digits, c.isDigit)
    (lead : digits.head? ≠ some '0') (exponent : Int) :
    (scientificLiteral width digits exponent).IsProper := by
  have begins : (digits.take 1).head? ≠ some '0' := by
    rwa [List.head?_take, if_neg Nat.one_ne_zero]
  have written : ∀ c ∈ Nat.toDigits 10 exponent.natAbs, c.isDigit :=
    fun _ => isDigit_of_mem_toDigits
  exact
    { whole :=
        ⟨by simp [scientificLiteral, h], fun c found => all c (List.mem_of_mem_take found),
          fun zero => absurd zero begins⟩
      fraction_digits := fun c found => all c (List.mem_of_mem_drop found)
      exponent_digits := by
        simp only [scientificLiteral, Option.mem_some, forall_eq']
        exact ⟨by simp, List.forall_mem_append.2 ⟨forall_isDigit_zeros _, written⟩⟩
      not_integer := by simp [scientificLiteral] }

theorem NumberStyle.literal_isProper (style : NumberStyle) (h : digits ≠ [])
    (all : ∀ c ∈ digits, c.isDigit) (lead : digits.head? ≠ some '0') (point : Int) :
    (style.literal digits point).IsProper := by
  unfold NumberStyle.literal
  split
  · exact positionalLiteral_isProper h all lead point
  · exact scientificLiteral_isProper _ h all lead _

/-! ## The shortest text -/

theorem withoutFinalZeros_toDigits {n : Nat} (h : 0 < n) :
    withoutFinalZeros (Nat.toDigits 10 n) ≠ [] ∧
      (∀ c ∈ withoutFinalZeros (Nat.toDigits 10 n), c.isDigit) ∧
      (withoutFinalZeros (Nat.toDigits 10 n)).head? ≠ some '0' := by
  obtain ⟨k, whole⟩ := exists_withoutFinalZeros (Nat.toDigits 10 n)
  obtain ⟨c, rest, digits, positive⟩ := toDigits_eq_cons h
  have ne_nil : withoutFinalZeros (Nat.toDigits 10 n) ≠ [] := by
    intro none
    rw [none, digits, List.nil_append] at whole
    exact positive (List.eq_of_mem_replicate (whole ▸ List.mem_cons_self))
  refine ⟨ne_nil, fun c found => isDigit_of_mem_toDigits (whole ▸ List.mem_append_left _ found), ?_⟩
  rw [← List.head?_append_of_ne_nil _ ne_nil, whole, digits, List.head?_cons]
  simpa using positive

/-- Zeros at the end of the digits of a decimal only say where its point is. -/
theorem bits_withoutFinalZeros (n : Nat) (places : Int) :
    Decimal.bits ⟨digitsValue (withoutFinalZeros (Nat.toDigits 10 n)),
        (withoutFinalZeros (Nat.toDigits 10 n)).length - ((Nat.toDigits 10 n).length - places)⟩
      = Decimal.bits ⟨n, places⟩ := by
  obtain ⟨k, whole⟩ := exists_withoutFinalZeros (Nat.toDigits 10 n)
  have value := digitsValue_append_zeros (withoutFinalZeros (Nat.toDigits 10 n)) k
  have length := congrArg List.length whole
  rw [List.length_append, List.length_replicate] at length
  rw [whole, digitsValue_toDigits] at value
  have places : ((withoutFinalZeros (Nat.toDigits 10 n)).length : Int)
      - ((Nat.toDigits 10 n).length - places) + k = places := by
    omega
  rw [← Decimal.bits_scaled _ k, Decimal.scaled, ← value, places]

/-- The text of a decimal in a style. -/
def NumberStyle.write (style : NumberStyle) (decimal : Decimal) : List Char :=
  let digits := Nat.toDigits 10 decimal.digits
  style.layOut (withoutFinalZeros digits) (digits.length - decimal.places)

/-- The text of a positive decimal is that of a proper literal with its value. -/
theorem NumberStyle.exists_literal (style : NumberStyle) {decimal : Decimal}
    (h : 0 < decimal.digits) :
    ∃ literal : Literal, literal.IsProper ∧ literal.text = style.write decimal ∧
      literal.decimal.bits = decimal.bits := by
  obtain ⟨ne_nil, all, lead⟩ := withoutFinalZeros_toDigits h
  refine ⟨style.literal _ _, style.literal_isProper ne_nil all lead _,
    style.literal_text ne_nil _, ?_⟩
  rw [style.literal_bits ne_nil, bits_withoutFinalZeros]

/-- The digits and the point of the shortest text of a finite double. -/
theorem shortestIn_eq (style : NumberStyle) (h : shape x = .finite negative mantissa exponent) :
    shortestIn style x =
      if unitsOfBits (magnitudeBits x) = 0 then signed negative ['0', '.', '0']
      else signed negative
        (style.write (shortestDecimal (unitsOfBits (magnitudeBits x)) (magnitudeBits x))) := by
  simp only [shortestIn, h, (shape_finite h).2.1]
  rfl

/-- The shortest text of a finite double is that of a proper literal with its value. -/
theorem shortestIn_finite (style : NumberStyle) (h : shape x = .finite negative mantissa exponent) :
    ∃ literal : Literal, literal.IsProper ∧ shortestIn style x = signed negative literal.text ∧
      ofDecimal negative literal.decimal = x := by
  obtain ⟨below, -, whole⟩ := shape_finite h
  rw [shortestIn_eq style h]
  by_cases zero : unitsOfBits (magnitudeBits x) = 0
  · -- the decimal of a zero would have no digit to begin with
    have bits : magnitudeBits x = 0 := by
      rw [← nearestBits_unitsOfBits below, zero]
      rfl
    have proper : Literal.IsProper ⟨['0'], ['0'], none⟩ :=
      ⟨isWhole_toDigits 0, by simp, by simp, by simp⟩
    refine ⟨_, proper, if_pos zero, ?_⟩
    rw [ofDecimal_eq, ← whole, bits]
    exact congrArg _ (Decimal.bits_of_zero rfl)
  · rw [if_neg zero]
    have reads := bits_shortestDecimal below
    generalize shortestDecimal (unitsOfBits (magnitudeBits x)) (magnitudeBits x) = decimal
      at reads ⊢
    have positive : 0 < decimal.digits := by
      refine Nat.pos_of_ne_zero fun none => zero ?_
      rw [← reads, Decimal.bits_of_zero none]
      rfl
    obtain ⟨literal, proper, text, value⟩ := style.exists_literal positive
    refine ⟨literal, proper, congrArg _ text.symm, ?_⟩
    rw [ofDecimal_eq, value, reads, whole]

/-! ## Characters -/

theorem Literal.IsProper.mem_text {literal : Literal} {c : Char} (proper : literal.IsProper)
    (h : c ∈ literal.text) : c.isDigit ∨ c ∈ ['.', 'e', '+', '-'] := by
  simp only [Literal.text, List.mem_append] at h
  rcases h with (whole | fraction) | exponent
  · exact .inl (proper.whole.isDigit c whole)
  · unfold Literal.fractionText at fraction
    split at fraction
    · cases fraction
    · rcases List.mem_cons.1 fraction with rfl | digit
      · exact .inr (by simp)
      · exact .inl (proper.fraction_digits c digit)
  · match part : literal.exponent with
    | none =>
      rw [part] at exponent
      cases exponent
    | some (below, digits) =>
      rw [part] at exponent
      simp only [Literal.exponentText, List.mem_cons] at exponent
      rcases exponent with rfl | rfl | digit
      · exact .inr (by simp)
      · exact .inr (by cases below <;> simp)
      · exact .inl ((proper.exponent_digits _ part).2 c digit)

/-- The characters of numbers as they are written, those of the words for the others included. -/
theorem mem_shortestIn {style : NumberStyle} {c : Char} (h : c ∈ shortestIn style x) :
    c.isDigit ∨ c ∈ ['.', 'e', '+', '-', 'i', 'n', 'f', 'a'] := by
  cases found : shape x with
  | nan =>
    rw [shortestIn, found] at h
    exact .inr (by revert h; simp; tauto)
  | infinite negative =>
    rw [shortestIn, found] at h
    exact .inr (by cases negative <;> revert h <;> simp [signed] <;> tauto)
  | finite negative mantissa exponent =>
    obtain ⟨literal, proper, text, -⟩ := shortestIn_finite style found
    rw [text] at h
    have char : c = '-' ∨ c ∈ literal.text := by
      cases negative with
      | false => exact .inr h
      | true => exact List.mem_cons.1 h
    rcases char with rfl | char
    · exact .inr (by simp)
    · exact (proper.mem_text char).imp_right fun among => by revert among; simp; tauto

theorem shortestIn_begins (style : NumberStyle) (x : Float) :
    ∃ c rest, shortestIn style x = c :: rest ∧ (c.isDigit ∨ c ∈ ['-', 'i', 'n']) := by
  cases found : shape x with
  | nan =>
    rw [shortestIn, found]
    exact ⟨'n', _, rfl, by simp⟩
  | infinite negative =>
    rw [shortestIn, found]
    cases negative with
    | false => exact ⟨'i', _, rfl, by simp⟩
    | true => exact ⟨'-', _, rfl, by simp⟩
  | finite negative mantissa exponent =>
    obtain ⟨literal, proper, text, -⟩ := shortestIn_finite style found
    obtain ⟨c, rest, whole⟩ := List.exists_cons_of_ne_nil proper.whole.ne_nil
    rw [text]
    cases negative with
    | false =>
      have digit : c.isDigit := proper.whole.isDigit c (whole ▸ List.mem_cons_self)
      rw [Literal.text, whole, List.cons_append, List.cons_append]
      exact ⟨c, _, rfl, .inl digit⟩
    | true => exact ⟨'-', _, rfl, by simp⟩

end Double
end StackCalc
