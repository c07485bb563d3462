/-
  StackCalc.Proofs.CommonDivisors

  The greatest common divisor of two doubles.  Doubles of any size lose nothing by it: a divisor
  of two numbers of units has at least the zero bits at the end that both have, and no more bits
  in front than either, so it has no excess bits if one of them has none to begin with
  (`two_pow_excess_dvd_gcd`).  Hence the greatest common divisor of the whole parts is again a
  double, and no rounding or overflow comes in (`gcd_exact`).
-/

import StackCalc.Proofs.Rounding

namespace StackCalc
namespace Double

variable {x y : Float} {m n : Nat}

/-! ## Excess bits of a common divisor -/

/-- A number of units has at least the excess bits of a lesser one. -/
theorem excess_mono (h : m ≤ n) : excess m ≤ excess n :=
  excess_le (Nat.lt_of_le_of_lt h (lt_two_pow_excess n))

/-- The zero bits of the number with fewer excess bits are enough for the divisor. -/
theorem two_pow_excess_dvd_gcd_of_le (hm : 2 ^ excess m ∣ m) (hn : 2 ^ excess n ∣ n)
    (hpositive : 0 < m) (hle : excess m ≤ excess n) :
    2 ^ excess (Nat.gcd m n) ∣ Nat.gcd m n := by
  have hfewer : excess (Nat.gcd m n) ≤ excess m := excess_mono (Nat.gcd_le_left n hpositive)
  have hboth : 2 ^ excess m ∣ Nat.gcd m n :=
    Nat.dvd_gcd hm ((Nat.pow_dvd_pow 2 hle).trans hn)
  exact (Nat.pow_dvd_pow 2 hfewer).trans hboth

/-- The greatest common divisor of numbers without excess bits has none. -/
theorem two_pow_excess_dvd_gcd (hm : 2 ^ excess m ∣ m) (hn : 2 ^ excess n ∣ n) :
    2 ^ excess (Nat.gcd m n) ∣ Nat.gcd m n := by
  -- A zero divides nothing else, so its bits say nothing about the divisor.
  rcases Nat.eq_zero_or_pos m with rfl | hmpos
  · rwa [Nat.gcd_zero_left]
  rcases Nat.eq_zero_or_pos n with rfl | hnpos
  · rwa [Nat.gcd_zero_right]
  rcases Nat.le_total (excess m) (excess n) with hle | hle
  · exact two_pow_excess_dvd_gcd_of_le hm hn hmpos hle
  · rw [Nat.gcd_comm]
    exact two_pow_excess_dvd_gcd_of_le hn hm hnpos hle

/-! ## The divisor of two doubles -/

/-- A greatest common divisor is at most as large as one of the two numbers. -/
theorem gcd_le_or_le (m n : Nat) : Nat.gcd m n ≤ m ∨ Nat.gcd m n ≤ n := by
  rcases Nat.eq_zero_or_pos m with rfl | hpositive
  · exact .inr (Nat.gcd_zero_left n).le
  · exact .inl (Nat.gcd_le_left n hpositive)

/-- A whole number that is at most as large as a double is not infinite. -/
theorem nearestBits_of_le_wholePart (hx : isFinite x = true) (h : n ≤ wholePart x) :
    nearestBits (n * one) 1 < infinityBits := by
  have hunits : n * one ≤ units x := (Nat.mul_le_mul_right one h).trans (Nat.div_mul_le_self _ _)
  obtain ⟨hbits, hbelow⟩ := nearestBits_units hx
  exact Nat.lt_of_le_of_lt (nearestBits_mono hunits) (hbits ▸ hbelow)

/-- The units of the whole part of a double have no excess bits. -/
theorem two_pow_excess_dvd_wholePart (hx : isFinite x = true) :
    2 ^ excess (wholePart x * one) ∣ wholePart x * one := by
  obtain ⟨hfinite, hunits⟩ := truncated_units hx
  rw [← hunits]
  exact two_pow_excess_dvd_units hfinite

/-- The greatest common divisor of the whole parts of two finite doubles is a double. -/
theorem ofNat?_gcd (hx : isFinite x = true) (hy : isFinite y = true) :
    ∃ z, ofNat? (Nat.gcd (wholePart x) (wholePart y)) = some z ∧ isWhole z = true
      ∧ isNegative z = false ∧ wholePart z = Nat.gcd (wholePart x) (wholePart y) := by
  have hbelow : nearestBits (Nat.gcd (wholePart x) (wholePart y) * one) 1 < infinityBits := by
    rcases gcd_le_or_le (wholePart x) (wholePart y) with hle | hle
    · exact nearestBits_of_le_wholePart hx hle
    · exact nearestBits_of_le_wholePart hy hle
  have hdvd : 2 ^ excess (Nat.gcd (wholePart x) (wholePart y) * one)
      ∣ Nat.gcd (wholePart x) (wholePart y) * one := by
    rw [← Nat.gcd_mul_right]
    exact two_pow_excess_dvd_gcd (two_pow_excess_dvd_wholePart hx)
      (two_pow_excess_dvd_wholePart hy)
  obtain ⟨hfinite, hsign, hunits⟩ := finite_ofUnits false hbelow
  rw [nearestUnits_eq_self hdvd] at hunits
  have hpart : wholePart (ofUnits false (Nat.gcd (wholePart x) (wholePart y) * one) 1)
      = Nat.gcd (wholePart x) (wholePart y) := by
    rw [wholePart, hunits, Nat.mul_div_cancel _ one_pos]
  exact ⟨ofUnits false (Nat.gcd (wholePart x) (wholePart y) * one) 1, if_pos hbelow,
    isWhole_iff.mpr ⟨hfinite, by rw [hunits, hpart]⟩, hsign, hpart⟩

theorem gcd_eq : gcd = fun x y =>
    (ofNat? (Nat.gcd (wholePart x) (wholePart y))).elim (.error .integerTooLarge) .ok := by
  -- Unfolded as a function: applied to two numbers, it would be evaluated.
  unfold gcd
  funext x y
  generalize ofNat? (Nat.gcd (wholePart x) (wholePart y)) = found
  cases found <;> rfl

end Double

open Builtin Double

variable {x y z : Float}

/-- A finite number that is not less than zero can be counted with. -/
theorem countable_eq_ok (purpose : Purpose) (hx : isFinite x = true) (hnonneg : 0 ≤ x) :
    countable purpose x = .ok (wholePart x) := by
  rw [countable, hx, decide_eq_false (not_lt_zero hnonneg)]
  rfl

theorem commonDivisor_eq : commonDivisor = fun x y =>
    (countable .commonDivisor x).bind fun _ => (countable .commonDivisor y).bind fun _ =>
      Native.defined ((ofNat? (Nat.gcd (wholePart x) (wholePart y))).elim
        (.error .integerTooLarge) .ok) := by
  unfold commonDivisor
  rw [gcd_eq]

/-- The operation is the greatest common divisor of the whole parts. -/
theorem produces_gcd (hx : isFinite x = true) (hxnonneg : 0 ≤ x) (hy : isFinite y = true)
    (hynonneg : 0 ≤ y) (hz : ofNat? (Nat.gcd (wholePart x) (wholePart y)) = some z) :
    Produces "gcd" [.number y, .number x] [.number z] := by
  have hfind : Table.find? "gcd" functions = some (.native (Native.binary commonDivisor)) := rfl
  have hcells : Fits [.number, .number] [.number y, .number x] := .cons rfl (.cons rfl .nil)
  have hvalue : commonDivisor x y = .ok z := by
    rw [commonDivisor_eq]
    dsimp only
    rw [countable_eq_ok _ hx hxnonneg, countable_eq_ok _ hy hynonneg, hz]
    rfl
  refine produces_of_body hfind rfl hcells ?_
  simp only [List.reverse_cons, List.reverse_nil, List.nil_append, List.cons_append,
    Native.binary, hvalue]
  rfl

/-- The greatest common divisor of two finite doubles that are not less than zero, of whatever
    size, always exists and is exact: it is the whole double without a sign whose value is the
    greatest common divisor of the two numbers without their fractions. -/
theorem gcd_exact (b a : Float) (hb : isFinite b = true) (ha : isFinite a = true) (hb' : 0 ≤ b)
    (ha' : 0 ≤ a) :
    ∃ z, Produces "gcd" [.number a, .number b] [.number z] ∧ isWhole z = true
      ∧ isNegative z = false ∧ wholePart z = Nat.gcd (wholePart b) (wholePart a)
      ∧ ofNat? (Nat.gcd (wholePart b) (wholePart a)) = some z := by
  obtain ⟨z, hz, hwhole, hsign, hpart⟩ := ofNat?_gcd hb ha
  exact ⟨z, produces_gcd hb hb' ha ha' hz, hwhole, hsign, hpart, hz⟩

/-- Two numbers of a thousand and of seven hundred bits. -/
theorem gcd_exact_of_large :
    isFinite 1e300 = true ∧ isFinite 6e210 = true ∧ (0 : Float) ≤ 1e300 ∧ (0 : Float) ≤ 6e210
      ∧ ∃ z, Produces "gcd" [.number 6e210, .number 1e300] [.number z] ∧ isWhole z = true
        ∧ isNegative z = false ∧ wholePart z = Nat.gcd (wholePart 1e300) (wholePart 6e210)
        ∧ ofNat? (Nat.gcd (wholePart 1e300) (wholePart 6e210)) = some z :=
  ⟨by decide +kernel, by decide +kernel, by decide +kernel, by decide +kernel,
    gcd_exact 1e300 6e210 (by decide +kernel) (by decide +kernel) (by decide +kernel)
      (by decide +kernel)⟩

end StackCalc
