/-
  StackCalc.Proofs.Decimals

  Decimals and the doubles nearest to them.  A decimal may be written with more zeros
  at its end, no decimal is cut off that is not beyond all doubles or below them, and
  the shortest decimal of a double reads back to it.
-/

import StackCalc.Double.Numeral
import StackCalc.Proofs.Magnitudes

namespace StackCalc
namespace Double

variable {n d n' d' bits : Nat}

/-! ## The number of digits -/

theorem lt_pow_digitCount (n : Nat) : n < 10 ^ digitCount n :=
  (Nat.length_toDigits_le_iff (by decide) Nat.length_toDigits_pos).1 (Nat.le_refl _)

theorem pow_le_of_lt_digitCount {k : Nat} (h : k < digitCount n) (positive : 0 < n) :
    10 ^ k ≤ n := by
  rcases Nat.eq_zero_or_pos k with rfl | some
  · exact positive
  · exact Nat.not_lt.1 fun below =>
      Nat.not_lt.2 ((Nat.length_toDigits_le_iff (by decide) some).2 below) h

/-! ## Rounding ratios -/

/-- Equal ratios have the same nearest double. -/
theorem nearestBits_congr (hd : 0 < d) (hd' : 0 < d') (h : n * d' = n' * d) :
    nearestBits n d = nearestBits n' d' := by
  rw [← nearestBits_mul n d hd', ← nearestBits_mul n' d' hd, h, Nat.mul_comm d]

/-- Less than half a unit is nothing. -/
theorem nearestBits_eq_zero (h : 2 * n < d) : nearestBits n d = 0 := by
  have quotient : n / d = 0 := Nat.div_eq_of_lt (by omega)
  have rest : n % d = n := Nat.mod_eq_of_lt (by omega)
  simp [nearestBits, roundHalfEven, quotient, rest, h]

/-- From two to the 2099th units on, all is infinite. -/
theorem nearestBits_eq_infinity {k : Nat} (hd : 0 < d) (hk : 2099 ≤ k) (h : d * 2 ^ k ≤ n) :
    nearestBits n d = infinityBits := by
  have quotient : 2 ^ k ≤ n / d := (Nat.le_div_iff_mul_le hd).2 (by rwa [Nat.mul_comm])
  have positive : 0 < 2 ^ k := Nat.two_pow_pos k
  have log2 : k ≤ (n / d).log2 := (Nat.le_log2 (by omega)).2 quotient
  simp only [nearestBits, infinityBits, Nat.pow_eq]
  omega

/-! ## Decimals -/

/-- A decimal with more places, all of them zero. -/
def Decimal.scaled (x : Decimal) (k : Nat) : Decimal :=
  ⟨x.digits * 10 ^ k, x.places + k⟩

@[simp]
theorem Decimal.bits_scaled (x : Decimal) (k : Nat) : (x.scaled k).bits = x.bits := by
  obtain ⟨digits, places⟩ := x
  refine nearestBits_congr (Nat.pow_pos (by decide)) (Nat.pow_pos (by decide)) ?_
  simp only [Decimal.scaled, Decimal.ratio, Nat.pow_eq]
  -- the signs of both numbers of places decide which of the powers are there
  have powers : 10 ^ k * 10 ^ (-(places + k)).toNat * 10 ^ places.toNat
      = 10 ^ (-places).toNat * 10 ^ (places + k).toNat := by
    rw [← Nat.pow_add, ← Nat.pow_add, ← Nat.pow_add]
    congr 1
    omega
  calc digits * 10 ^ k * 10 ^ (-(places + k)).toNat * one * 10 ^ places.toNat
      = digits * (10 ^ k * 10 ^ (-(places + k)).toNat * 10 ^ places.toNat) * one := by ring
    _ = digits * 10 ^ (-places).toNat * one * 10 ^ (places + k).toNat := by rw [powers]; ring

theorem Decimal.bits_of_zero {x : Decimal} (h : x.digits = 0) : x.bits = 0 := by
  refine nearestBits_eq_zero ?_
  simp only [Decimal.ratio, h, Nat.zero_mul, Nat.mul_zero, Nat.pow_eq]
  positivity

/-- Half a unit is above the last of 331 places. -/
theorem two_mul_one_le : ∃ places, places = 331 ∧ 2 * one ≤ 10 ^ places :=
  ⟨331, rfl, by decide +kernel⟩

/-- A number of 311 digits is above all doubles. -/
theorem pow_le_mul_one :
    ∃ places limit, places = 310 ∧ limit = 2099 ∧ 2 ^ limit ≤ 10 ^ places * one :=
  ⟨310, 2099, rfl, rfl, by decide +kernel⟩

/-- A decimal with more than 310 digits before the point is beyond all doubles. -/
theorem Decimal.bits_of_large {x : Decimal} (positive : 0 < x.digits)
    (h : 310 < (digitCount x.digits : Int) - x.places) : x.bits = infinityBits := by
  obtain ⟨digits, places⟩ := x
  obtain ⟨count, limit, counted, limited, units⟩ := pow_le_mul_one
  refine nearestBits_eq_infinity (Nat.pow_pos (by decide)) (Nat.le_of_eq limited.symm) ?_
  simp only [Decimal.ratio, Nat.pow_eq] at positive h ⊢
  have least : 10 ^ (digitCount digits - 1) ≤ digits := by
    have some : 0 < digitCount digits := Nat.length_toDigits_pos
    exact pow_le_of_lt_digitCount (by omega) positive
  have powers : 10 ^ places.toNat * 10 ^ count
      ≤ 10 ^ (digitCount digits - 1) * 10 ^ (-places).toNat := by
    rw [← Nat.pow_add, ← Nat.pow_add]
    exact Nat.pow_le_pow_right (by decide) (by omega)
  calc 10 ^ places.toNat * 2 ^ limit
      ≤ 10 ^ places.toNat * (10 ^ count * one) := Nat.mul_le_mul_left _ units
    _ = 10 ^ places.toNat * 10 ^ count * one := (Nat.mul_assoc ..).symm
    _ ≤ 10 ^ (digitCount digits - 1) * 10 ^ (-places).toNat * one := Nat.mul_le_mul_right _ powers
    _ ≤ digits * 10 ^ (-places).toNat * one := by gcongr

/-- A decimal with more than 330 zeros behind the point is below half a unit. -/
theorem Decimal.bits_of_small {x : Decimal}
    (h : (digitCount x.digits : Int) - x.places < -330) : x.bits = 0 := by
  obtain ⟨digits, places⟩ := x
  obtain ⟨count, counted, units⟩ := two_mul_one_le
  refine nearestBits_eq_zero ?_
  simp only [Decimal.ratio, Nat.pow_eq] at h ⊢
  have below : digits < 10 ^ digitCount digits := lt_pow_digitCount digits
  have powers : 10 ^ digitCount digits * 10 ^ (-places).toNat * 10 ^ count ≤ 10 ^ places.toNat := by
    rw [← Nat.pow_add, ← Nat.pow_add]
    exact Nat.pow_le_pow_right (by decide) (by omega)
  have positive : 0 < 10 ^ (-places).toNat * (2 * one) :=
    Nat.mul_pos (Nat.pow_pos (by decide)) (Nat.mul_pos (by decide) one_pos)
  calc 2 * (digits * 10 ^ (-places).toNat * one)
      = digits * (10 ^ (-places).toNat * (2 * one)) := by ring
    _ < 10 ^ digitCount digits * (10 ^ (-places).toNat * (2 * one)) :=
      Nat.mul_lt_mul_of_pos_right below positive
    _ ≤ 10 ^ digitCount digits * (10 ^ (-places).toNat * 10 ^ count) := by gcongr
    _ ≤ 10 ^ places.toNat := by rwa [← Nat.mul_assoc]

/-- The cut-offs of reading agree with rounding. -/
theorem ofDecimal_eq (negative : Bool) (x : Decimal) :
    ofDecimal negative x = ofMagnitude negative x.bits := by
  unfold ofDecimal
  by_cases zero : x.digits = 0
  · rw [if_pos zero, Decimal.bits_of_zero zero]
  rw [if_neg zero]
  by_cases large : (digitCount x.digits : Int) - x.places > 310
  · rw [if_pos large, Decimal.bits_of_large (Nat.pos_of_ne_zero zero) large]
  rw [if_neg large]
  by_cases small : (digitCount x.digits : Int) - x.places < -330
  · rw [if_pos small, Decimal.bits_of_small small]
  · rw [if_neg small]

/-! ## The shortest decimal -/

theorem bits_of_readingBack? {count : Nat} {x : Decimal} (h : readingBack? n bits count = some x) :
    x.bits = bits := by
  rw [readingBack?] at h
  simpa using List.find?_some h

/-- The exact value of units, where one of them is five to the power of `places` in the last of
    that many places. -/
theorem Decimal.bits_exact {power : Nat} {places : Nat} (hp : one * power = 10 ^ places) :
    Decimal.bits ⟨n * power, places⟩ = nearestBits n 1 := by
  refine nearestBits_congr (Nat.pow_pos (by decide)) Nat.one_pos ?_
  simp only [Decimal.ratio, Nat.pow_eq, Int.toNat_natCast, Int.toNat_neg_natCast, Nat.pow_zero,
    Nat.mul_one]
  rw [Nat.mul_assoc, Nat.mul_comm power, hp]

/-- The shortest decimal of a finite double reads back to it. -/
theorem bits_shortestDecimal (h : bits < infinityBits) :
    (shortestDecimal (unitsOfBits bits) bits).bits = bits := by
  have scale : one * Nat.pow 5 1074 = 10 ^ 1074 := by decide +kernel
  rw [shortestDecimal]
  -- from here on the power of five is known by its product with a unit only
  generalize Nat.pow 5 1074 = power at scale ⊢
  cases found : (List.range 17).findSome? fun k => readingBack? (unitsOfBits bits) bits (k + 1) with
  | some decimal =>
    obtain ⟨k, -, reads⟩ := List.exists_of_findSome?_eq_some found
    exact bits_of_readingBack? reads
  | none =>
    have exact := @Decimal.bits_exact (unitsOfBits bits) power 1074 scale
    exact exact.trans (nearestBits_unitsOfBits h)

end Double
end StackCalc
