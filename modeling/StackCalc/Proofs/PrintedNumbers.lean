/-
  StackCalc.Proofs.PrintedNumbers

  Printed numbers can be typed again.  The text of a finite double on the stack is that of
  a literal: its whole digits, or its shortest text.  Every such text is one word of the
  kind of numbers, and it denotes the double, but that a zero loses its sign
  (`read?_showNumber`).  So the texts of a stack of finite doubles from the bottom to the
  top, with spaces between them, are a program that leaves these doubles
  (`run_printed_numbers`).
-/

import StackCalc.Proofs.FixedPlaces
import StackCalc.Proofs.Phrases
import StackCalc.Proofs.Rejoining
import StackCalc.Proofs.Signs

namespace StackCalc

open StackCalc.Text

namespace Double

variable {x : Float} {literal : Literal}

/-! ## Literals that are read -/

/-- The parts of a literal that can be read: digits before the point, no others but digits
    behind it, and digits in the exponent, if there is one. -/
structure Literal.IsReadable (literal : Literal) : Prop where
  whole_ne_nil : literal.whole ≠ []
  whole_digits : ∀ c ∈ literal.whole, isDigit c = true
  fraction_digits : ∀ c ∈ literal.fraction, isDigit c = true
  exponent_digits : ∀ part ∈ literal.exponent, part.2 ≠ [] ∧ ∀ c ∈ part.2, isDigit c = true

theorem isDigit_of_ascii {c : Char} (h : c.isDigit) : isDigit c = true := by
  rw [isDigit, digitValue?_of_isDigit h]
  rfl

theorem Literal.IsProper.isReadable (h : literal.IsProper) : literal.IsReadable where
  whole_ne_nil := h.whole.ne_nil
  whole_digits c hc := isDigit_of_ascii (h.whole.isDigit c hc)
  fraction_digits c hc := isDigit_of_ascii (h.fraction_digits c hc)
  exponent_digits part hpart :=
    ⟨(h.exponent_digits part hpart).1,
      fun c hc => isDigit_of_ascii ((h.exponent_digits part hpart).2 c hc)⟩

/-- The digits of a natural number are a literal without a fraction. -/
def wholeLiteral (n : Nat) : Literal := ⟨Nat.toDigits 10 n, [], none⟩

theorem wholeLiteral_isReadable (n : Nat) : (wholeLiteral n).IsReadable where
  whole_ne_nil := Nat.toDigits_ne_nil
  whole_digits _ hc := isDigit_of_ascii (isDigit_of_mem_toDigits hc)
  fraction_digits := by simp [wholeLiteral]
  exponent_digits := by simp [wholeLiteral]

theorem wholeLiteral_text (n : Nat) : (wholeLiteral n).text = Nat.toDigits 10 n := by
  simp [wholeLiteral, Literal.text, Literal.fractionText, Literal.exponentText]

/-- The digits of a natural number denote the double nearest to it. -/
theorem wholeLiteral_bits (n : Nat) : (wholeLiteral n).decimal.bits = nearestBits (n * one) 1 := by
  have hdecimal : (wholeLiteral n).decimal = ⟨n, 0⟩ := by
    simp [wholeLiteral, Literal.decimal, Literal.power]
  rw [hdecimal]
  simp only [Decimal.bits, Decimal.ratio, Int.neg_zero, Int.toNat_zero, Nat.pow_eq, Nat.pow_zero,
    Nat.mul_one]

/-- A sign in front of digits is taken off. -/
theorem takeSign_signed (h : literal.IsReadable) (negative : Bool) :
    takeSign (signed negative literal.text) = (negative, literal.text) := by
  cases negative with
  | true => rfl
  | false =>
    show takeSign literal.text = (false, literal.text)
    have hhead : ∀ c, literal.text.head? = some c → c ≠ '+' ∧ c ≠ '-' := by
      rw [Literal.text, List.append_assoc]
      exact head_of_digits h.whole_ne_nil h.whole_digits _
    unfold takeSign
    split
    · exact absurd rfl (hhead _ (by simp [*])).2
    · exact absurd rfl (hhead _ (by simp [*])).1
    · rfl

theorem exponentOf?_exponentText (h : literal.IsReadable) :
    exponentOf? (Literal.exponentText literal.exponent) = some (Literal.power literal.exponent) := by
  match hexponent : literal.exponent with
  | none => rfl
  | some (negative, digits) =>
    obtain ⟨hne, hdigits⟩ := h.exponent_digits _ hexponent
    have htake : takeSign ((if negative then '-' else '+') :: digits) = (negative, digits) := by
      cases negative <;> rfl
    have hread : ¬(digits.isEmpty || !digits.all isDigit) = true := by
      simpa [hne] using hdigits
    simp only [Literal.exponentText, exponentOf?, htake, if_neg hread]
    rfl

/-- A literal is a numeral with its parts. -/
theorem ofText?_literal (h : literal.IsReadable) (negative : Bool) :
    Numeral.ofText? (signed negative literal.text)
      = some ⟨negative, literal.whole, literal.fraction, Literal.power literal.exponent⟩ := by
  have hexponent := exponentOf?_exponentText h
  have hwhole : literal.whole.isEmpty = false := by simpa using h.whole_ne_nil
  -- Behind the digits stands the mark of an exponent, if there is anything at all.
  have hbehind : ∀ c, (Literal.exponentText literal.exponent).head? = some c →
      isDigit c = false ∧ c ≠ '.' := by
    intro c hc
    match hpart : literal.exponent with
    | none => rw [hpart] at hc; cases hc
    | some (negative, digits) =>
      rw [hpart] at hc
      obtain rfl := Option.some.inj hc
      decide
  simp only [Numeral.ofText?, takeSign_signed h]
  rw [Literal.text, List.append_assoc]
  generalize Literal.exponentText literal.exponent = tail at hexponent hbehind
  by_cases hfraction : literal.fraction = []
  · obtain ⟨htake, hdrop⟩ := digits_append h.whole_digits fun c hc => (hbehind c hc).1
    simp only [Literal.fractionText, hfraction, if_true, List.nil_append, htake, hdrop]
    split
    · exact absurd rfl (hbehind _ rfl).2
    · simp only [hwhole, hexponent, Bool.false_and, Option.map_some, Bool.false_eq_true, if_false]
  · obtain ⟨htake, hdrop⟩ := digits_append h.whole_digits
      (t := '.' :: (literal.fraction ++ tail)) fun c hc => by obtain rfl := Option.some.inj hc; decide
    obtain ⟨htake', hdrop'⟩ := digits_append h.fraction_digits fun c hc => (hbehind c hc).1
    simp only [Literal.fractionText, if_neg hfraction, List.cons_append, htake, hdrop, htake', hdrop',
      hwhole, hexponent, Bool.false_and, Option.map_some, Bool.false_eq_true, if_false]

/-- A literal is read as the double nearest to what it denotes. -/
theorem read?_literal (h : literal.IsReadable) (negative : Bool) :
    isNumeral (signed negative literal.text) = true
      ∧ read? (signed negative literal.text) = some (ofDecimal negative literal.decimal) := by
  have htext := ofText?_literal h negative
  have hnumeral : isNumeral (signed negative literal.text) = true := by
    rw [isNumeral, htext]
    rfl
  obtain ⟨numeral, hparts, hread⟩ := read?_of_isNumeral hnumeral
  obtain rfl := Option.some.inj (htext.symm.trans hparts)
  exact ⟨hnumeral, hread⟩

/-! ## Numbers on the stack -/

/-- A double, where a zero has no sign. -/
def withoutZeroSign (x : Float) : Float := if units x = 0 then unsigned x else x

theorem withoutZeroSign_eq (hfinite : isFinite x = true) (h : isNegative x = false ∨ units x ≠ 0) :
    withoutZeroSign x = x := by
  unfold withoutZeroSign
  split
  · exact unsigned_of_not_isNegative hfinite (h.resolve_right (by simpa using ‹units x = 0›))
  · rfl

/-- The sign of a zero makes no difference to its value. -/
theorem withoutZeroSign_beq (h : isFinite x = true) : (withoutZeroSign x == x) = true := by
  unfold withoutZeroSign
  split
  · rename_i hzero
    exact unsigned_beq h fun hlt => ((lt_zero_iff h).mp hlt).2 hzero
  · rw [Float.beq_self_iff]
    rintro rfl
    have hnan : isFinite Float.nan = false := by decide +kernel
    rw [hnan] at h
    cases h

/-- The whole digits of a double without a fraction denote it, but for the sign of a zero. -/
theorem ofDecimal_wholeLiteral (h : isFinite x = true) (hwhole : units x % one = 0) :
    ofDecimal (isNegative x && units x / one ≠ 0) (wholeLiteral (units x / one)).decimal
      = withoutZeroSign x := by
  have hunits : units x / one * one = units x := Nat.div_mul_cancel (Nat.dvd_of_mod_eq_zero hwhole)
  rw [ofDecimal_eq, wholeLiteral_bits, hunits, (nearestBits_units h).1, withoutZeroSign]
  by_cases hzero : units x = 0
  · rw [if_pos hzero, hzero, Nat.zero_div]
    simp [unsigned]
  · have hquotient : units x / one ≠ 0 := by
      intro hquotient
      rw [hquotient, Nat.zero_mul] at hunits
      exact hzero hunits.symm
    obtain ⟨negative, mantissa, exponent, hshape⟩ := isFinite_iff.mp h
    have hnegative : isNegative x = negative := by simp only [isNegative, hshape]
    rw [if_neg hzero, decide_eq_true hquotient, Bool.and_true, hnegative]
    exact (shape_finite hshape).2.2

/-- A finite double is shown as a literal that denotes it, but for the sign of a zero. -/
theorem exists_literal_of_showNumber (h : isFinite x = true) :
    ∃ (negative : Bool) (literal : Literal), literal.IsReadable
      ∧ (showNumber none x).toList = signed negative literal.text
      ∧ ofDecimal negative literal.decimal = withoutZeroSign x := by
  obtain ⟨negative, mantissa, exponent, hshape⟩ := isFinite_iff.mp h
  rw [showNumber_eq hshape none]
  split
  · rename_i hwhole
    exact ⟨_, wholeLiteral (units x / one), wholeLiteral_isReadable _,
      by rw [wholeLiteral_text], ofDecimal_wholeLiteral h hwhole.2⟩
  · rename_i hother
    obtain ⟨literal, hproper, htext, hvalue⟩ := shortestIn_finite .plain hshape
    have hunits : units x ≠ 0 := by
      intro hzero
      apply hother
      rw [hzero]
      exact ⟨by decide +kernel, Nat.zero_mod _⟩
    exact ⟨negative, literal, hproper.isReadable, htext,
      hvalue.trans (withoutZeroSign_eq h (.inr hunits)).symm⟩

/-- What is shown of a finite double is a numeral, and it is read as the double, but for the
    sign of a zero. -/
theorem read?_showNumber (h : isFinite x = true) :
    isNumeral (showNumber none x).toList = true
      ∧ read? (showNumber none x).toList = some (withoutZeroSign x) := by
  obtain ⟨negative, literal, hreadable, htext, hvalue⟩ := exists_literal_of_showNumber h
  rw [htext, ← hvalue]
  exact read?_literal hreadable negative

end Double

open Double

/-! ## Words of the kind of numbers -/

/-- A text that is a numeral is one word, of the kind of numbers. -/
theorem bareWords_numeral {text : String} (h : isNumeral text.toList = true) :
    (scan text).stray = none ∧ bareWords text = [⟨.number, text, 0, 0⟩]
      ∧ endsInComment text = false := by
  have hkind : kindOf text.toList = .number :=
    (describes_kindOf text.toList).number.mpr ((fits_numeral_iff none []).mpr h)
  have hne : text.toList ≠ [] := by
    intro hnil
    rw [hnil] at h
    cases h
  have hopens : text.toList ≠ ['<'] := by
    intro hopens
    rw [hopens] at h
    cases h
  rw [← hkind]
  exact bareWords_run (isRun_of_isNumeral h) hne hopens

/-- The words of numerals with spaces between them are these numerals. -/
theorem bareWords_numerals {texts : List String}
    (h : ∀ text ∈ texts, isNumeral text.toList = true) :
    (scan (" ".intercalate texts)).stray = none
      ∧ bareWords (" ".intercalate texts) = texts.map fun text => ⟨.number, text, 0, 0⟩ :=
  intercalate_singles fun text htext => bareWords_numeral (h text htext)

/-! ## Programs of numbers -/

variable {setting : Setting} {nested : Nested} {values : List Float}

/-- A frame of cells pushes them one after the other. -/
theorem runFrame_cells (step : Nat) (cells : List Cell) (stack : Stack) (m : Machine) :
    (runFrame setting nested step (cells.map .cell) stack m).1 = .ok (cells.reverse ++ stack) := by
  induction cells generalizing step stack m with
  | nil =>
    rw [List.map_nil, runFrame_nil]
    rfl
  | cons cell rest ih =>
    rw [List.map_cons, runFrame_cons, List.reverse_cons, List.append_assoc]
    exact ih (step + 1) (cell :: stack) _

theorem run_cells {depth : Nat} (hdepth : 0 < depth) (cells : List Cell) (stack : Stack)
    (m : Machine) :
    (run setting depth (cells.map .cell) stack m).1 = .ok (cells.reverse ++ stack) := by
  obtain ⟨depth, rfl⟩ := Nat.exists_eq_add_one.mpr hdepth
  exact runFrame_cells 0 cells stack m

/-- A text of words for numbers runs without an error and pushes them. -/
theorem run_numbers (session : Session) {source : String} (hstray : (scan source).stray = none)
    (h : List.Forall₂ (fun (x : Lexeme) value => x.kind = .number
      ∧ read? x.text.toList = some value) (bareWords source) values)
    (stack : Stack) (name : Option String) (verbosity : Nat) :
    (session.run source stack name verbosity).result
      = .ok ((values.map Cell.number).reverse ++ stack) := by
  rw [bareWords, List.forall₂_map_left_iff] at h
  have hsingle : List.Forall₂ (fun (x : Lexeme) node =>
      Grammar.IsItem Lexeme.kind [x] ∧ Makes [x.token name] node)
      (scan source).lexemes ((values.map Cell.number).map .cell) := by
    rw [List.map_map, List.forall₂_map_right_iff]
    exact h.imp fun x value hx => ⟨.literal (.inl hx.1), .number hx.1 hx.2⟩
  obtain ⟨hitems, hmake⟩ := single_items_make hsingle
  rw [run_of_items session hstray hitems hmake]
  exact run_cells (by decide) _ _ _

/-- What is shown of a stack of finite doubles, from the bottom to the top with spaces between
    the numbers, is a program.  It runs without an error under any definitions, and leaves the
    same doubles in the same order, where only a negative zero comes back without its sign,
    which makes no difference to its value. -/
theorem run_printed_numbers (session : Session) (xs : List Float)
    (hfinite : ∀ x ∈ xs, isFinite x = true) (name : Option String) (verbosity : Nat) :
    (session.run (" ".intercalate ((xs.map Cell.number).reverse.map (Cell.shown none))) [] name
        verbosity).result = .ok (xs.map fun x => .number (withoutZeroSign x))
      ∧ ∀ x ∈ xs, (withoutZeroSign x == x) = true
        ∧ (isNegative x = false ∨ units x ≠ 0 → withoutZeroSign x = x) := by
  refine ⟨?_, fun x hx => ⟨withoutZeroSign_beq (hfinite x hx), withoutZeroSign_eq (hfinite x hx)⟩⟩
  have htexts : (xs.map Cell.number).reverse.map (Cell.shown none)
      = xs.reverse.map (showNumber none) := by
    rw [← List.map_reverse, List.map_map]
    rfl
  have hread : ∀ x ∈ xs.reverse, isNumeral (showNumber none x).toList = true
      ∧ read? (showNumber none x).toList = some (withoutZeroSign x) :=
    fun x hx => read?_showNumber (hfinite x (List.mem_reverse.mp hx))
  rw [htexts]
  obtain ⟨hstray, hwords⟩ := bareWords_numerals
    (List.forall_mem_map.mpr fun x hx => (hread x hx).1)
  have hvalues : List.Forall₂ (fun (x : Lexeme) value => x.kind = .number
      ∧ read? x.text.toList = some value)
      (bareWords (" ".intercalate (xs.reverse.map (showNumber none))))
      (xs.reverse.map withoutZeroSign) := by
    rw [hwords, List.map_map, List.forall₂_map_left_iff, List.forall₂_map_right_iff,
      List.forall₂_same]
    exact fun x hx => ⟨rfl, (hread x hx).2⟩
  have hrun := run_numbers session hstray hvalues [] name verbosity
  rw [hrun, List.append_nil, List.map_map, List.map_reverse, List.reverse_reverse]
  rfl

/-- A large number, one with a fraction, and a negative zero, which is shown without its sign. -/
theorem run_printed_numbers_typed :
    (∀ x ∈ [ofMagnitude true 0, 0.5, 1e300], isFinite x = true)
      ∧ " ".intercalate (([ofMagnitude true 0, 0.5, 1e300].map Cell.number).reverse.map
          (Cell.shown none)) = "1e+300 0.5 0"
      ∧ ((Session.fresh .default).run "1e+300 0.5 0" [] none 0).result
        = .ok [.number (ofMagnitude false 0), .number 0.5, .number 1e300] := by
  have hfinite : ∀ x ∈ [ofMagnitude true 0, 0.5, 1e300], isFinite x = true := by decide +kernel
  have htext : " ".intercalate (([ofMagnitude true 0, 0.5, 1e300].map Cell.number).reverse.map
      (Cell.shown none)) = "1e+300 0.5 0" := by decide +kernel
  have hrun := (run_printed_numbers (.fresh .default) _ hfinite none 0).1
  rw [htext] at hrun
  refine ⟨hfinite, htext, hrun.trans ?_⟩
  have hvalues : [ofMagnitude true 0, 0.5, 1e300].map withoutZeroSign
      = [ofMagnitude false 0, 0.5, 1e300] := by decide +kernel
  have hcells := congrArg (List.map Cell.number) hvalues
  rw [List.map_map] at hcells
  exact congrArg Except.ok hcells

end StackCalc
