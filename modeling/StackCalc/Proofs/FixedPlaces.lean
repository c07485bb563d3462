/-
  StackCalc.Proofs.FixedPlaces

  The number that is shown with a fixed number of places.  `denoted?` reads a decimal
  numeral back, as a rational number.  The text with fixed places denotes the exact value
  rounded to these places (`denoted?_fixed`), and what is shown is this text without the
  zeros at its end and without a point at its end.  Zeros behind a point do not matter
  (`denoted?_trimmed`).  Without places there is no point that stops the zeros: a number
  loses the zeros of its whole part, and zero all of its digits
  (`showNumber_fixed_places`).
-/

import StackCalc.Cell
import StackCalc.Proofs.Numerals
import StackCalc.Proofs.Words

namespace StackCalc
namespace Double

open StackCalc.Text

variable {x : Float} {negative : Bool} {mantissa exponent places : Nat}
  {s t whole fraction : List Char}

/-! ## Numerals -/

/-- The number that digits denote, and digits behind a point if there is one; nothing for
    other texts. -/
def magnitude? (s : List Char) : Option ℚ :=
  let whole := s.takeWhile Char.isDigit
  if whole = [] then none
  else
    match s.dropWhile Char.isDigit with
    | [] => some (digitsValue whole : ℚ)
    | '.' :: fraction =>
      if fraction ≠ [] ∧ ∀ c ∈ fraction, c.isDigit then
        some ((digitsValue (whole ++ fraction) : ℚ) / 10 ^ fraction.length)
      else none
    | _ => none

/-- A number with a sign. -/
def signedValue (negative : Bool) (q : ℚ) : ℚ := if negative then -q else q

/-- The number that a decimal numeral denotes; nothing for other texts. -/
def denoted? (s : List Char) : Option ℚ :=
  match s with
  | '-' :: rest => (magnitude? rest).map (signedValue true)
  | s => magnitude? s

/-- The exact value of a finite double. -/
def exactValue (x : Float) : ℚ := signedValue (isNegative x) (units x / one)

/-- The exact value of a finite double rounded to a number of places, a half to the even
    neighbour. -/
def roundedTo (places : Nat) (x : Float) : ℚ :=
  signedValue (isNegative x) (roundHalfEven (units x * 10 ^ places) one / 10 ^ places)

theorem signedValue_inj {q q' : ℚ} : signedValue negative q = signedValue negative q' ↔ q = q' := by
  cases negative with
  | false => exact Iff.rfl
  | true => exact neg_inj

theorem magnitude?_whole (hne : whole ≠ []) (hdigits : ∀ c ∈ whole, c.isDigit) :
    magnitude? whole = some (digitsValue whole : ℚ) := by
  have htake : whole.takeWhile Char.isDigit = whole := List.takeWhile_eq_self_iff.2 hdigits
  have hdrop : whole.dropWhile Char.isDigit = [] := List.dropWhile_eq_nil_iff.2 hdigits
  simp only [magnitude?, htake, hdrop, if_neg hne]

/-- The parts of a numeral, the digits before and behind its point, say what it denotes. -/
theorem magnitude?_parts (hne : whole ≠ []) (hwhole : ∀ c ∈ whole, c.isDigit)
    (hfraction : ∀ c ∈ fraction, c.isDigit) :
    magnitude? (whole ++ Literal.fractionText fraction)
      = some ((digitsValue (whole ++ fraction) : ℚ) / 10 ^ fraction.length) := by
  by_cases hnone : fraction = []
  · subst hnone
    have htext : whole ++ Literal.fractionText [] = whole := List.append_nil whole
    rw [htext, magnitude?_whole hne hwhole]
    simp
  · have htext : Literal.fractionText fraction = '.' :: fraction := if_neg hnone
    have htake : (whole ++ '.' :: fraction).takeWhile Char.isDigit = whole := by
      rw [List.takeWhile_append_of_pos hwhole, List.takeWhile_cons_of_neg (by decide),
        List.append_nil]
    have hdrop : (whole ++ '.' :: fraction).dropWhile Char.isDigit = '.' :: fraction := by
      rw [List.dropWhile_append_of_pos hwhole, List.dropWhile_cons_of_neg (by decide)]
    rw [htext]
    simp only [magnitude?, htake, hdrop, if_neg hne]
    exact if_pos (And.intro hnone hfraction)

theorem denoted?_signed (h : s.head? ≠ some '-') (negative : Bool) :
    denoted? (signed negative s) = (magnitude? s).map (signedValue negative) := by
  cases negative with
  | true => rfl
  | false =>
    have hid : (magnitude? s).map (signedValue false) = magnitude? s := Option.map_id'
    rw [hid]
    unfold denoted? signed
    split
    · rename_i rest heq
      have hs : s = '-' :: rest := heq
      exact absurd (by rw [hs, List.head?_cons]) h
    · rfl

theorem head?_ne_of_digits (hdigits : ∀ c ∈ s, c.isDigit) (t : List Char) (hne : s ≠ []) :
    (s ++ t).head? ≠ some '-' := by
  obtain ⟨c, rest, rfl⟩ := List.exists_cons_of_ne_nil hne
  have hc : c.isDigit := hdigits c (List.mem_cons_self ..)
  rw [List.cons_append, List.head?_cons, ne_eq, Option.some_inj]
  rintro rfl
  cases hc

theorem denoted?_signed_whole (hne : s ≠ []) (hdigits : ∀ c ∈ s, c.isDigit) (negative : Bool) :
    denoted? (signed negative s) = some (signedValue negative (digitsValue s)) := by
  have hhead := head?_ne_of_digits hdigits [] hne
  rw [List.append_nil] at hhead
  rw [denoted?_signed hhead, magnitude?_whole hne hdigits, Option.map_some]

/-! ## Zeros and points at the end -/

/-- A text without zeros at its end and, behind that, without points. -/
def trimmed (s : List Char) : List Char := ((withoutFinalZeros s).reverse.dropWhile (· = '.')).reverse

theorem withoutFinalZeros_append {c : Char} (h : c ≠ '0') (s t : List Char) :
    withoutFinalZeros (s ++ c :: t) = s ++ c :: withoutFinalZeros t :=
  rdropWhile_append_of_neg (by simpa using h) s t

theorem withoutFinalZeros_signed (negative : Bool) (s : List Char) :
    withoutFinalZeros (signed negative s) = signed negative (withoutFinalZeros s) := by
  cases negative with
  | false => rfl
  | true => exact withoutFinalZeros_append (by decide) [] s

theorem isDigit_withoutFinalZeros (hdigits : ∀ c ∈ s, c.isDigit) :
    ∀ c ∈ withoutFinalZeros s, c.isDigit := by
  obtain ⟨k, hs⟩ := exists_withoutFinalZeros s
  intro c hc
  exact hdigits c (hs ▸ List.mem_append_left _ hc)

/-- A text that ends in digits does not end in a point. -/
theorem dropPoints_append (t : List Char) (hne : s ≠ []) (hdigits : ∀ c ∈ s, c.isDigit) :
    (t ++ s).rdropWhile (· = '.') = t ++ s := by
  obtain ⟨init, last, rfl⟩ := (List.eq_nil_or_concat s).resolve_left hne
  have hlast : last.isDigit := hdigits last (by simp)
  rw [List.concat_eq_append, ← List.append_assoc]
  refine List.rdropWhile_concat_neg _ _ _ ?_
  intro hpoint
  rw [of_decide_eq_true hpoint] at hlast
  cases hlast

theorem signed_append (negative : Bool) (s t : List Char) :
    signed negative (s ++ t) = signed negative s ++ t := by
  cases negative <;> rfl

theorem dropPoints_signed (negative : Bool) (hdigits : ∀ c ∈ s, c.isDigit) :
    (signed negative s).rdropWhile (· = '.') = signed negative s := by
  by_cases hnone : s = []
  · subst hnone
    cases negative <;> rfl
  · cases negative with
    | false => exact dropPoints_append [] hnone hdigits
    | true => exact dropPoints_append ['-'] hnone hdigits

/-- Behind a point the zeros at the end go, and the point if nothing else is behind it. -/
theorem trimmed_parts (negative : Bool) (hwhole : ∀ c ∈ whole, c.isDigit)
    (hsome : fraction ≠ []) (hfraction : ∀ c ∈ fraction, c.isDigit) :
    trimmed (signed negative (whole ++ Literal.fractionText fraction))
      = signed negative (whole ++ Literal.fractionText (withoutFinalZeros fraction)) := by
  have htext : Literal.fractionText fraction = '.' :: fraction := if_neg hsome
  have hzeros : withoutFinalZeros (signed negative (whole ++ Literal.fractionText fraction))
      = signed negative whole ++ '.' :: withoutFinalZeros fraction := by
    rw [htext, signed_append, withoutFinalZeros_append (by decide)]
  have htrim : trimmed (signed negative (whole ++ Literal.fractionText fraction))
      = (signed negative whole ++ '.' :: withoutFinalZeros fraction).rdropWhile (· = '.') :=
    congrArg (List.rdropWhile (· = '.')) hzeros
  rw [htrim]
  -- The point goes only if no digit is left behind it; the digits before it stop the rest.
  by_cases hnone : withoutFinalZeros fraction = []
  · have hwhole' : whole ++ Literal.fractionText [] = whole := List.append_nil whole
    rw [hnone, hwhole', List.rdropWhile_concat_pos _ _ _ (by decide),
      dropPoints_signed negative hwhole]
  · have hkept : Literal.fractionText (withoutFinalZeros fraction)
        = '.' :: withoutFinalZeros fraction := if_neg hnone
    have hend := dropPoints_append (signed negative whole ++ ['.']) hnone
      (isDigit_withoutFinalZeros hfraction)
    rw [List.append_assoc, List.singleton_append] at hend
    rw [hend, hkept, signed_append]

/-- Zeros at the end of a fraction do not change the number. -/
theorem value_withoutFinalZeros (whole fraction : List Char) :
    (digitsValue (whole ++ withoutFinalZeros fraction) : ℚ)
        / 10 ^ (withoutFinalZeros fraction).length
      = digitsValue (whole ++ fraction) / 10 ^ fraction.length := by
  obtain ⟨k, hk⟩ := exists_withoutFinalZeros fraction
  have hvalue := digitsValue_append_zeros (whole ++ withoutFinalZeros fraction) k
  have hlength := congrArg List.length hk
  rw [List.append_assoc, hk] at hvalue
  rw [List.length_append, List.length_replicate] at hlength
  rw [hvalue, ← hlength, pow_add]
  push_cast
  field_simp

/-! ## Fixed places -/

/-- A text with fixed places has digits before the point and as many behind it. -/
theorem fixed_parts (places : Nat) (x : Float) :
    ∃ whole fraction, whole ≠ [] ∧ (∀ c ∈ whole, c.isDigit) ∧ (∀ c ∈ fraction, c.isDigit)
      ∧ fraction.length = places
      ∧ digitsValue (whole ++ fraction) = roundHalfEven (units x * 10 ^ places) one
      ∧ fixed places x = signed (isNegative x) (whole ++ Literal.fractionText fraction) := by
  obtain ⟨rounded, hrounded⟩ : ∃ r, roundHalfEven (units x * 10 ^ places) one = r := ⟨_, rfl⟩
  obtain ⟨padded, hpadded⟩ : ∃ s, List.replicate (places + 1 - (Nat.toDigits 10 rounded).length) '0'
      ++ Nat.toDigits 10 rounded = s := ⟨_, rfl⟩
  have hlength : places + 1 ≤ padded.length := by
    rw [← hpadded, List.length_append, List.length_replicate]
    omega
  have hdigits : ∀ c ∈ padded, c.isDigit := by
    rw [← hpadded]
    exact List.forall_mem_append.2 ⟨forall_isDigit_zeros _, fun _ => isDigit_of_mem_toDigits⟩
  have hvalue : digitsValue padded = rounded := by
    rw [← hpadded, digitsValue_zeros_append, digitsValue_toDigits]
  have hfixed : fixed places x = signed (isNegative x)
      (if places = 0 then padded
        else padded.take (padded.length - places) ++ '.' :: padded.drop (padded.length - places)) := by
    rw [fixed, Nat.pow_eq, hrounded, hpadded]
  have hbehind : (padded.drop (padded.length - places)).length = places := by
    rw [List.length_drop]
    omega
  refine ⟨padded.take (padded.length - places), padded.drop (padded.length - places), ?_, ?_, ?_,
    hbehind, ?_, ?_⟩
  · intro hnone
    have hcount := congrArg List.length hnone
    rw [List.length_take, List.length_nil] at hcount
    omega
  · exact fun c hc => hdigits c (List.mem_of_mem_take hc)
  · exact fun c hc => hdigits c (List.mem_of_mem_drop hc)
  · rw [List.take_append_drop, hvalue, hrounded]
  · refine hfixed.trans (congrArg (signed (isNegative x)) ?_)
    by_cases hplaces : places = 0
    · subst hplaces
      rw [if_pos rfl, Nat.sub_zero, List.take_length, List.drop_length]
      exact (List.append_nil padded).symm
    · have hsome : padded.drop (padded.length - places) ≠ [] := by
        intro hnone
        rw [hnone] at hbehind
        exact hplaces hbehind.symm
      rw [if_neg hplaces, Literal.fractionText, if_neg hsome]

/-- The text with fixed places denotes the exact value, rounded to these places. -/
theorem denoted?_fixed (places : Nat) (x : Float) :
    denoted? (fixed places x) = some (roundedTo places x) := by
  obtain ⟨whole, fraction, hne, hwhole, hfraction, hlength, hvalue, hfixed⟩ := fixed_parts places x
  rw [hfixed, denoted?_signed (head?_ne_of_digits hwhole _ hne),
    magnitude?_parts hne hwhole hfraction, hvalue, hlength]
  rfl

/-- With a point in it a text can be trimmed: it denotes the same. -/
theorem denoted?_trimmed (hplaces : places ≠ 0) (x : Float) :
    denoted? (trimmed (fixed places x)) = some (roundedTo places x) := by
  obtain ⟨whole, fraction, hne, hwhole, hfraction, hlength, hvalue, hfixed⟩ := fixed_parts places x
  have hsome : fraction ≠ [] := by
    rintro rfl
    exact hplaces hlength.symm
  rw [hfixed, trimmed_parts _ hwhole hsome hfraction,
    denoted?_signed (head?_ne_of_digits hwhole _ hne),
    magnitude?_parts hne hwhole (isDigit_withoutFinalZeros hfraction), value_withoutFinalZeros,
    hvalue, hlength]
  rfl

/-! ## No places -/

/-- A number that is divisible by ten ends in a zero. -/
theorem withoutFinalZeros_toDigits_eq_iff {n : Nat} :
    withoutFinalZeros (Nat.toDigits 10 n) = Nat.toDigits 10 n ↔ ¬10 ∣ n := by
  have hself : withoutFinalZeros (Nat.toDigits 10 n) = Nat.toDigits 10 n
      ↔ ∀ hl : Nat.toDigits 10 n ≠ [], ¬(decide ((Nat.toDigits 10 n).getLast hl = '0') = true) :=
    List.rdropWhile_eq_self_iff
  have hlast : ∀ hl : Nat.toDigits 10 n ≠ [],
      (Nat.toDigits 10 n).getLast hl = (n % 10).digitChar := by
    intro hl
    rcases Nat.lt_or_ge n 10 with hsmall | hlarge
    · simp [Nat.toDigits_of_lt_base hsmall, Nat.mod_eq_of_lt hsmall]
    · simp [Nat.toDigits_of_base_le (by decide) hlarge]
  rw [hself, Nat.dvd_iff_mod_eq_zero]
  constructor
  · intro h hzero
    have hne : Nat.toDigits 10 n ≠ [] := Nat.toDigits_ne_nil
    refine h hne ?_
    rw [hlast hne, hzero]
    rfl
  · intro hmod hne hzero
    rw [hlast hne, decide_eq_true_eq, Nat.digitChar_eq_zero] at hzero
    exact hmod hzero

/-- What is left of the digits of a whole number without its final zeros denotes it only if
    there are none. -/
theorem magnitude?_withoutFinalZeros_iff {n : Nat} :
    magnitude? (withoutFinalZeros (Nat.toDigits 10 n)) = some (n : ℚ) ↔ ¬10 ∣ n := by
  rw [← withoutFinalZeros_toDigits_eq_iff]
  have hall : ∀ c ∈ Nat.toDigits 10 n, c.isDigit := fun _ => isDigit_of_mem_toDigits
  constructor
  · intro h
    obtain ⟨k, hk⟩ := exists_withoutFinalZeros (Nat.toDigits 10 n)
    have hne : withoutFinalZeros (Nat.toDigits 10 n) ≠ [] := by
      intro hnone
      rw [hnone] at h
      cases h
    rw [magnitude?_whole hne (isDigit_withoutFinalZeros hall), Option.some_inj, Nat.cast_inj] at h
    have hvalue := digitsValue_append_zeros (withoutFinalZeros (Nat.toDigits 10 n)) k
    rw [hk, digitsValue_toDigits, h] at hvalue
    have hpositive : 0 < n := by
      refine Nat.pos_of_ne_zero ?_
      rintro rfl
      exact hne rfl
    -- The number is not changed by the zeros, so there are none.
    have hk0 : k = 0 := by
      by_contra hsome
      have hlt : 1 < 10 ^ k := Nat.one_lt_pow hsome (by decide)
      have hmul : n * 1 < n * 10 ^ k := Nat.mul_lt_mul_of_pos_left hlt hpositive
      omega
    rw [hk0, List.replicate_zero, List.append_nil] at hk
    exact hk
  · intro h
    rw [h, magnitude?_whole Nat.toDigits_ne_nil hall, digitsValue_toDigits]

theorem isSome_magnitude?_withoutFinalZeros_iff {n : Nat} :
    (magnitude? (withoutFinalZeros (Nat.toDigits 10 n))).isSome ↔ n ≠ 0 := by
  rcases Nat.eq_zero_or_pos n with rfl | hpositive
  · exact ⟨nofun, fun h => absurd rfl h⟩
  · obtain ⟨hne, hall, -⟩ := withoutFinalZeros_toDigits hpositive
    rw [magnitude?_whole hne hall]
    exact ⟨fun _ => Nat.ne_of_gt hpositive, fun _ => rfl⟩

theorem fixed_zero (x : Float) :
    fixed 0 x = signed (isNegative x) (Nat.toDigits 10 (roundHalfEven (units x) one)) := by
  have hone : units x * Nat.pow 10 0 = units x := Nat.mul_one _
  have hlength : 0 + 1 - (Nat.toDigits 10 (roundHalfEven (units x) one)).length = 0 := by
    have hpositive := @Nat.length_toDigits_pos 10 (roundHalfEven (units x) one)
    omega
  rw [fixed, hone, hlength, if_pos rfl, List.replicate_zero, List.nil_append]

/-- Without places there is no point: the zeros of the whole number are trimmed. -/
theorem trimmed_fixed_zero (x : Float) :
    trimmed (fixed 0 x)
      = signed (isNegative x) (withoutFinalZeros (Nat.toDigits 10 (roundHalfEven (units x) one))) := by
  have hdigits : ∀ c ∈ withoutFinalZeros (Nat.toDigits 10 (roundHalfEven (units x) one)),
      c.isDigit := isDigit_withoutFinalZeros fun _ => isDigit_of_mem_toDigits
  have hzeros : withoutFinalZeros (fixed 0 x) = signed (isNegative x)
      (withoutFinalZeros (Nat.toDigits 10 (roundHalfEven (units x) one))) := by
    rw [fixed_zero, withoutFinalZeros_signed]
  exact (congrArg (List.rdropWhile (· = '.')) hzeros).trans (dropPoints_signed _ hdigits)

theorem denoted?_trimmed_zero (x : Float) :
    denoted? (trimmed (fixed 0 x))
      = (magnitude? (withoutFinalZeros (Nat.toDigits 10 (roundHalfEven (units x) one)))).map
          (signedValue (isNegative x)) := by
  rw [trimmed_fixed_zero]
  have hdigits : ∀ c ∈ withoutFinalZeros (Nat.toDigits 10 (roundHalfEven (units x) one)),
      c.isDigit := isDigit_withoutFinalZeros fun _ => isDigit_of_mem_toDigits
  by_cases hnone : withoutFinalZeros (Nat.toDigits 10 (roundHalfEven (units x) one)) = []
  -- Of zero nothing is left but a sign, which denotes nothing.
  · rw [hnone]
    cases isNegative x <;> rfl
  · rw [denoted?_signed_whole hnone hdigits, magnitude?_whole hnone hdigits, Option.map_some]

/-- Without places the trimmed text is a numeral exactly if the rounded number is not zero. -/
theorem isSome_denoted?_trimmed_zero_iff (x : Float) :
    (denoted? (trimmed (fixed 0 x))).isSome ↔ roundHalfEven (units x) one ≠ 0 := by
  rw [denoted?_trimmed_zero, Option.isSome_map, isSome_magnitude?_withoutFinalZeros_iff]

/-- Without places trimming keeps the number exactly if the rounded number is not divisible by
    ten. -/
theorem denoted?_trimmed_zero_iff (x : Float) :
    denoted? (trimmed (fixed 0 x)) = denoted? (fixed 0 x)
      ↔ ¬10 ∣ roundHalfEven (units x) one := by
  have hrounded : roundedTo 0 x = signedValue (isNegative x) (roundHalfEven (units x) one : ℚ) := by
    rw [roundedTo, pow_zero, pow_zero, Nat.mul_one, div_one]
  rw [denoted?_trimmed_zero, denoted?_fixed, hrounded, ← magnitude?_withoutFinalZeros_iff]
  constructor
  · intro h
    obtain ⟨q, hq, hsigned⟩ := Option.map_eq_some_iff.1 h
    exact hq.trans (congrArg some (signedValue_inj.1 hsigned))
  · intro h
    rw [h, Option.map_some]

/-! ## Shown numbers -/

/-- What is shown of a finite number: its whole digits, or the trimmed text with fixed places,
    or its shortest text. -/
theorem showNumber_eq (h : shape x = .finite negative mantissa exponent)
    (precision : Option Nat) :
    (showNumber precision x).toList =
      if units x < wholeLimit ∧ units x % one = 0 then
        signed (isNegative x && units x / one ≠ 0) (Nat.toDigits 10 (units x / one))
      else precision.elim (shortestIn .plain x) fun places => trimmed (fixed places x) := by
  have hunits : units x = mantissa * Nat.pow 2 exponent := by simp only [units, h]
  have hnegative : isNegative x = negative := by simp only [isNegative, h]
  simp only [showNumber, h, ← hunits, hnegative, Bool.and_eq_true, decide_eq_true_eq]
  split
  · exact String.toList_ofList
  · cases precision <;> exact String.toList_ofList

/-- What is shown of a finite number with fixed places. -/
theorem showNumber_finite (h : shape x = .finite negative mantissa exponent) (places : Nat) :
    (showNumber (some places) x).toList =
      if units x < wholeLimit ∧ units x % one = 0 then
        signed (isNegative x && units x / one ≠ 0) (Nat.toDigits 10 (units x / one))
      else trimmed (fixed places x) :=
  showNumber_eq h (some places)

/-- The whole digits of a number that has no fraction denote it. -/
theorem denoted?_whole (hwhole : units x % one = 0) :
    denoted? (signed (isNegative x && units x / one ≠ 0) (Nat.toDigits 10 (units x / one)))
      = some (exactValue x) := by
  obtain ⟨whole, hunits⟩ : ∃ whole, units x = one * whole := Nat.dvd_of_mod_eq_zero hwhole
  have hdiv : units x / one = whole := by rw [hunits, Nat.mul_div_cancel_left _ one_pos]
  have hall : ∀ c ∈ Nat.toDigits 10 whole, c.isDigit := fun _ => isDigit_of_mem_toDigits
  have hvalue : exactValue x = signedValue (isNegative x) whole := by
    have hone : (one : ℚ) ≠ 0 := Nat.cast_ne_zero.2 (Nat.ne_of_gt one_pos)
    rw [exactValue, hunits, Nat.cast_mul, mul_div_cancel_left₀ _ hone]
  rw [hdiv, denoted?_signed_whole Nat.toDigits_ne_nil hall, digitsValue_toDigits, hvalue]
  -- Zero is written without a sign.
  rcases Nat.eq_zero_or_pos whole with rfl | hpositive
  · cases isNegative x <;> simp [signedValue]
  · have hne : decide (whole ≠ 0) = true := decide_eq_true (Nat.ne_of_gt hpositive)
    rw [hne, Bool.and_true]

/-- A number shown with fixed places.  A whole number below the limit is shown exactly.  For all
    others the text with fixed places is the exact value, rounded to these places.  The text that
    is shown is a decimal numeral, and denotes the same number, exactly if there are places, or if
    the number rounded to a whole one is not zero, or not divisible by ten. -/
theorem showNumber_fixed_places (x : Float) (hfinite : isFinite x = true) (places : Nat) :
    (units x < wholeLimit ∧ units x % one = 0 →
        denoted? (showNumber (some places) x).toList = some (exactValue x))
      ∧ (¬(units x < wholeLimit ∧ units x % one = 0) →
        denoted? (fixed places x) = some (roundedTo places x)
          ∧ ((denoted? (showNumber (some places) x).toList).isSome
            ↔ places ≠ 0 ∨ roundHalfEven (units x) one ≠ 0)
          ∧ (denoted? (showNumber (some places) x).toList = denoted? (fixed places x)
            ↔ places ≠ 0 ∨ ¬10 ∣ roundHalfEven (units x) one)) := by
  obtain ⟨negative, mantissa, exponent, hshape⟩ : ∃ negative mantissa exponent,
      shape x = .finite negative mantissa exponent := by
    rw [isFinite] at hfinite
    split at hfinite
    · exact ⟨_, _, _, ‹_›⟩
    · cases hfinite
  rw [showNumber_finite hshape]
  refine ⟨fun hwhole => ?_, fun hother => ?_⟩
  · rw [if_pos hwhole]
    exact denoted?_whole hwhole.2
  rw [if_neg hother]
  refine ⟨denoted?_fixed places x, ?_⟩
  by_cases hplaces : places = 0
  · subst hplaces
    rw [isSome_denoted?_trimmed_zero_iff, denoted?_trimmed_zero_iff]
    simp
  · rw [denoted?_trimmed hplaces, denoted?_fixed]
    exact ⟨⟨fun _ => Or.inl hplaces, fun _ => rfl⟩, ⟨fun _ => Or.inl hplaces, fun _ => rfl⟩⟩

/-- An eighth with two places is shown as 0.12, the text of the even neighbour. -/
theorem showNumber_fixed_places_eighth :
    isFinite 0.125 = true ∧ denoted? (showNumber (some 2) 0.125).toList = denoted? "0.12".toList := by
  have hfinite : isFinite 0.125 = true := by decide +kernel
  have hother : ¬(units 0.125 < wholeLimit ∧ units 0.125 % one = 0) := by decide +kernel
  have hfixed : fixed 2 0.125 = "0.12".toList := by decide +kernel
  obtain ⟨-, hplaces⟩ := showNumber_fixed_places 0.125 hfinite 2
  obtain ⟨-, -, hsame⟩ := hplaces hother
  have hshown := hsame.2 (Or.inl (by decide))
  rw [hfixed] at hshown
  exact ⟨hfinite, hshown⟩

/-- Without places a number can be shown as another one: 10.4 is shown as 1. -/
theorem showNumber_not_fixed_places :
    ¬∀ (x : Float) (places : Nat), isFinite x = true → places ≤ 17 →
      ¬(units x < wholeLimit ∧ units x % one = 0) →
        denoted? (showNumber (some places) x).toList = denoted? (fixed places x) := by
  intro h
  have hshown : (showNumber (some 0) 10.4).toList = ['1'] := by decide +kernel
  have hfixed : fixed 0 10.4 = ['1', '0'] := by decide +kernel
  have hsame := h 10.4 0 (by decide +kernel) (by decide) (by decide +kernel)
  have hone : ∀ c ∈ ['1'], c.isDigit := by simp
  have hten : ∀ c ∈ ['1', '0'], c.isDigit := by simp
  have hshown' : denoted? ['1'] = some (1 : ℚ) := denoted?_signed_whole (by simp) hone false
  have hfixed' : denoted? ['1', '0'] = some (10 : ℚ) := denoted?_signed_whole (by simp) hten false
  rw [hshown, hfixed, hshown', hfixed', Option.some_inj] at hsame
  norm_num at hsame

end Double
end StackCalc
