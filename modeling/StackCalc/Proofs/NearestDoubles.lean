/-
  StackCalc.Proofs.NearestDoubles

  The double nearest to a number of units.  A number of units of more than 53 bits has some that no
  double of its size can have, its `excess`; rounding cuts them off and may carry (`nearestUnits`).
  The nearest double has exactly these units unless it is infinity (`finite_ofUnits`), it is the
  number itself if there is nothing to cut off (`nearestUnits_eq_self`), as for every double
  (`two_pow_excess_dvd_units`), and a greater number of units has no lesser double
  (`nearestBits_mono`).  In particular integers of at most 53 bits are doubles (`ofInt?_exact`), and
  those without a double are the ones from `overflow` on.
-/

import StackCalc.Proofs.Signs

namespace StackCalc
namespace Double

variable {x : Float} {negative : Bool} {mantissa exponent m n d c k bits : Nat}

/-! ## The double of a sign and bits -/

/-- The bits of a finite double are those that it is made of. -/
theorem toBits_ofBits {b : UInt64} (h : b.toNat / 2 ^ 52 % 2 ^ 11 ≠ 2047) :
    (Float.ofBits b).toBits = b := by
  have hvalid : Float.Model.Format.binary64.Valid b.toBitVec := by
    refine ⟨fun hexponent _ => ?_⟩
    have hmost := congrArg BitVec.toNat hexponent
    rw [Float.Model.UnpackedFloat.unpackExponent_def, BitVec.extractLsb'_toNat,
      Nat.shiftRight_eq_div_pow] at hmost
    exact absurd hmost h
  exact congrArg Float.toBits (Float.ofBits_toBits ⟨⟨b, hvalid⟩⟩)

theorem toNat_toBits_ofMagnitude (negative : Bool) (h : bits < infinityBits) :
    (ofMagnitude negative bits).toBits.toNat = (if negative then 2 ^ 63 else 0) + bits := by
  simp only [infinityBits, Nat.pow_eq] at h
  rw [ofMagnitude, toBits_ofBits]
  · cases negative <;> simp <;> omega
  · cases negative <;> simp <;> omega

theorem magnitudeBits_ofMagnitude (negative : Bool) (h : bits < infinityBits) :
    magnitudeBits (ofMagnitude negative bits) = bits := by
  rw [magnitudeBits, toNat_toBits_ofMagnitude negative h]
  simp only [infinityBits, Nat.pow_eq] at h ⊢
  cases negative <;> simp <;> omega

theorem shape_ofMagnitude (negative : Bool) (h : bits < infinityBits) :
    ∃ mantissa exponent,
      shape (ofMagnitude negative bits) = .finite negative mantissa exponent := by
  rw [shape, toNat_toBits_ofMagnitude negative h]
  simp only [infinityBits, Nat.pow_eq] at h
  simp only [shapeOfBits, Nat.pow_eq]
  have hsign : decide (((if negative = true then 2 ^ 63 else 0) + bits) / 2 ^ 63 % 2 = 1)
      = negative := by
    cases negative <;> simp <;> omega
  have hbiased : ((if negative = true then 2 ^ 63 else 0) + bits) / 2 ^ 52 % 2 ^ 11 ≠ 2047 := by
    cases negative <;> simp <;> omega
  rw [if_neg hbiased, hsign]
  generalize (if negative = true then 2 ^ 63 else 0) + bits = whole
  split
  · exact ⟨_, _, rfl⟩
  · exact ⟨_, _, rfl⟩

theorem isFinite_ofMagnitude (negative : Bool) (h : bits < infinityBits) :
    isFinite (ofMagnitude negative bits) = true := by
  obtain ⟨mantissa, exponent, hshape⟩ := shape_ofMagnitude negative h
  exact isFinite_iff.mpr ⟨_, _, _, hshape⟩

theorem isNegative_ofMagnitude (negative : Bool) (h : bits < infinityBits) :
    isNegative (ofMagnitude negative bits) = negative := by
  obtain ⟨mantissa, exponent, hshape⟩ := shape_ofMagnitude negative h
  rw [isNegative, hshape]

/-- The magnitude bits of a finite double hold its exponent and its mantissa, whose first bit is
    left out unless the exponent is the least one. -/
theorem magnitudeBits_of_shape (h : shape x = .finite negative mantissa exponent) :
    magnitudeBits x = exponent * 2 ^ 52 + mantissa ∧ mantissa < 2 ^ 53
      ∧ (2 ^ 52 ≤ mantissa ∨ exponent = 0) := by
  have hbits : magnitudeBits x = x.toBits.toNat % 2 ^ 63 := rfl
  rw [hbits]
  simp only [shape, shapeOfBits, Nat.pow_eq] at h
  split at h
  · split at h <;> cases h
  · split at h
    · obtain ⟨-, rfl, rfl⟩ := Shape.finite.inj h
      omega
    · obtain ⟨-, rfl, rfl⟩ := Shape.finite.inj h
      omega

/-- The units of a finite double are those of its magnitude bits. -/
theorem units_eq (h : isFinite x = true) : units x = unitsOfBits (magnitudeBits x) := by
  obtain ⟨negative, mantissa, exponent, hshape⟩ := isFinite_iff.mp h
  rw [(shape_finite hshape).2.1, units, hshape]
  rfl

theorem units_ofMagnitude (negative : Bool) (h : bits < infinityBits) :
    units (ofMagnitude negative bits) = unitsOfBits bits := by
  rw [units_eq (isFinite_ofMagnitude negative h), magnitudeBits_ofMagnitude negative h]

/-! ## Quotients rounded to even -/

theorem roundHalfEven_of_dvd (h : d ∣ n) (hd : 0 < d) : roundHalfEven n d = n / d := by
  have hrest : n % d = 0 := Nat.mod_eq_zero_of_dvd h
  rw [roundHalfEven, hrest]
  split_ifs <;> omega

theorem le_roundHalfEven (h : c * d ≤ n) (hd : 0 < d) : c ≤ roundHalfEven n d := by
  have hquotient : c ≤ n / d := (Nat.le_div_iff_mul_le hd).mpr h
  rw [roundHalfEven]
  split_ifs <;> omega

theorem roundHalfEven_le (h : n ≤ c * d) (hd : 0 < d) : roundHalfEven n d ≤ c := by
  rcases Nat.lt_or_eq_of_le h with hless | rfl
  · have hquotient : n / d < c := (Nat.div_lt_iff_lt_mul hd).mpr hless
    rw [roundHalfEven]
    split_ifs <;> omega
  · rw [roundHalfEven_of_dvd (Nat.dvd_mul_left d c) hd, Nat.mul_div_cancel c hd]

theorem roundHalfEven_mono (h : m ≤ n) (d : Nat) : roundHalfEven m d ≤ roundHalfEven n d := by
  have hquotient : m / d ≤ n / d := Nat.div_le_div_right h
  have hm : d * (m / d) + m % d = m := Nat.div_add_mod m d
  have hn : d * (n / d) + n % d = n := Nat.div_add_mod n d
  rw [roundHalfEven, roundHalfEven]
  rcases Nat.lt_or_eq_of_le hquotient with hless | hsame
  · split_ifs <;> omega
  · -- With the same quotient the greater number has the greater remainder.
    rw [hsame] at hm ⊢
    split_ifs <;> omega

/-! ## Units that doubles have -/

/-- How many of the last bits of a number of units no double of its size can have. -/
def excess (n : Nat) : Nat := n.log2 - 52

/-- Without them a number of units has at most 53 bits. -/
theorem lt_two_pow_excess (n : Nat) : n < 2 ^ 53 * 2 ^ excess n := by
  rw [← Nat.pow_add]
  exact Nat.lt_of_lt_of_le Nat.lt_log2_self
    (Nat.pow_le_pow_right (by decide) (by rw [excess]; omega))

/-- It has no fewer if it had that many before. -/
theorem two_pow_excess_le (h : 2 ^ 52 ≤ n) : 2 ^ 52 * 2 ^ excess n ≤ n := by
  have hlog : 52 ≤ n.log2 := (Nat.le_log2 (by omega)).mpr h
  rw [← Nat.pow_add, excess, Nat.add_sub_cancel' hlog]
  exact Nat.log2_self_le (by omega)

theorem excess_eq (hleast : 2 ^ 52 * 2 ^ k ≤ n) (hmost : n < 2 ^ 53 * 2 ^ k) : excess n = k := by
  have hne : n ≠ 0 := by
    have hpositive := Nat.two_pow_pos k
    omega
  rw [← Nat.pow_add] at hleast hmost
  have hlog : n.log2 = 52 + k :=
    (Nat.log2_eq_iff hne).mpr ⟨hleast, by rwa [Nat.add_right_comm]⟩
  rw [excess, hlog, Nat.add_sub_cancel_left]

theorem excess_le (h : n < 2 ^ 53 * 2 ^ k) : excess n ≤ k := by
  rcases Nat.eq_zero_or_pos n with rfl | hpositive
  · exact Nat.zero_le k
  · rw [← Nat.pow_add] at h
    have := (Nat.log2_lt hpositive.ne').mpr h
    rw [excess]
    omega

theorem excess_of_lt (h : n < 2 ^ 53) : excess n = 0 :=
  Nat.le_zero.mp (excess_le (k := 0) (by omega))

/-- The units of the double nearest to a number of units. -/
def nearestUnits (n : Nat) : Nat :=
  roundHalfEven n (2 ^ excess n) * 2 ^ excess n

/-- A rounded mantissa has at most 53 bits or is the next power of two, and it has no fewer unless
    nothing is cut off. -/
theorem rounded_bounds (n : Nat) :
    roundHalfEven n (2 ^ excess n) ≤ 2 ^ 53
      ∧ (2 ^ 52 ≤ roundHalfEven n (2 ^ excess n) ∨ excess n = 0) := by
  have hpositive := Nat.two_pow_pos (excess n)
  refine ⟨roundHalfEven_le (Nat.le_of_lt (lt_two_pow_excess n)) hpositive, ?_⟩
  rcases Nat.lt_or_ge n (2 ^ 52) with hsmall | hfull
  · exact .inr (excess_of_lt (by omega))
  · exact .inl (le_roundHalfEven (two_pow_excess_le hfull) hpositive)

/-! ## The nearest double -/

theorem nearestBits_one (n : Nat) :
    nearestBits n 1 = min (excess n * 2 ^ 52 + roundHalfEven n (2 ^ excess n)) infinityBits := by
  rw [nearestBits, Nat.div_one, Nat.one_mul]
  rfl

/-- Rounding keeps the order. -/
theorem nearestBits_mono (h : m ≤ n) : nearestBits m 1 ≤ nearestBits n 1 := by
  have hexcess : excess m ≤ excess n := excess_le (Nat.lt_of_le_of_lt h (lt_two_pow_excess n))
  rw [nearestBits_one, nearestBits_one]
  rcases Nat.lt_or_eq_of_le hexcess with hless | hsame
  · -- A greater exponent outweighs every mantissa.
    have hm := (rounded_bounds m).1
    have hn := (rounded_bounds n).2
    omega
  · have := roundHalfEven_mono h (2 ^ excess n)
    rw [hsame]
    omega

theorem nearestBits_lt (h : excess n < 2045) : nearestBits n 1 < infinityBits := by
  have hmost := (rounded_bounds n).1
  rw [nearestBits_one]
  simp only [infinityBits, Nat.pow_eq]
  omega

/-- The nearest double has these units, unless it is infinity. -/
theorem unitsOfBits_nearestBits (h : nearestBits n 1 < infinityBits) :
    unitsOfBits (nearestBits n 1) = nearestUnits n := by
  rw [nearestBits_one] at h ⊢
  rw [Nat.min_eq_left (by omega)]
  obtain ⟨hmost, hleast⟩ := rounded_bounds n
  rw [nearestUnits]
  generalize roundHalfEven n (2 ^ excess n) = r at *
  generalize excess n = k at *
  rcases Nat.lt_or_ge r (2 ^ 52) with hsmall | hfull
  · obtain rfl : k = 0 := by omega
    rw [unitsOfBits_of_lt (by omega)]
    omega
  · rw [unitsOfBits_of_le (by omega)]
    rcases Nat.lt_or_eq_of_le hmost with hless | rfl
    · have hexponent : (k * 2 ^ 52 + r) / 2 ^ 52 - 1 = k := by omega
      have hmantissa : 2 ^ 52 + (k * 2 ^ 52 + r) % 2 ^ 52 = r := by omega
      rw [hexponent, hmantissa]
    · -- The carry makes the exponent greater by one, and the mantissa half as large.
      have hexponent : (k * 2 ^ 52 + 2 ^ 53) / 2 ^ 52 - 1 = k + 1 := by omega
      have hmantissa : 2 ^ 52 + (k * 2 ^ 52 + 2 ^ 53) % 2 ^ 52 = 2 ^ 52 := by omega
      rw [hexponent, hmantissa, Nat.pow_succ]
      omega

/-- A number of units without excess bits is that of a double, unless it is too large. -/
theorem nearestUnits_eq_self (h : 2 ^ excess n ∣ n) : nearestUnits n = n := by
  rw [nearestUnits, roundHalfEven_of_dvd h (Nat.two_pow_pos _), Nat.div_mul_cancel h]

theorem two_pow_excess_dvd_unitsOfBits (bits : Nat) :
    2 ^ excess (unitsOfBits bits) ∣ unitsOfBits bits := by
  rcases Nat.lt_or_ge bits (2 ^ 52) with hsmall | hfull
  · rw [unitsOfBits_of_lt hsmall, excess_of_lt (by omega)]
    exact Nat.one_dvd _
  · have hexcess : excess (unitsOfBits bits) = bits / 2 ^ 52 - 1 := by
      rw [excess, log2_unitsOfBits hfull]
      omega
    rw [hexcess, unitsOfBits_of_le hfull]
    exact Nat.dvd_mul_left _ _

/-- The units of a double have no excess bits. -/
theorem two_pow_excess_dvd_units (h : isFinite x = true) : 2 ^ excess (units x) ∣ units x := by
  rw [units_eq h]
  exact two_pow_excess_dvd_unitsOfBits _

/-- The double of a number of units is finite if it has few enough of them. -/
theorem finite_ofUnits (negative : Bool) (h : nearestBits n 1 < infinityBits) :
    isFinite (ofUnits negative n 1) = true ∧ isNegative (ofUnits negative n 1) = negative
      ∧ units (ofUnits negative n 1) = nearestUnits n := by
  rw [ofUnits, units_ofMagnitude negative h, unitsOfBits_nearestBits h]
  exact ⟨isFinite_ofMagnitude negative h, isNegative_ofMagnitude negative h, rfl⟩

theorem finite_unsigned (h : isFinite x = true) :
    isFinite (unsigned x) = true ∧ isNegative (unsigned x) = false
      ∧ units (unsigned x) = units x := by
  have hbelow := (nearestBits_units h).2
  rw [unsigned, units_ofMagnitude false hbelow, units_eq h]
  exact ⟨isFinite_ofMagnitude false hbelow, isNegative_ofMagnitude false hbelow, rfl⟩

/-! ## Whole numbers -/

theorem isWhole_iff : isWhole x = true ↔ isFinite x = true ∧ units x = wholePart x * one := by
  rw [isWhole, Bool.and_eq_true, decide_eq_true_eq, wholePart]
  exact and_congr_right fun _ => ⟨fun h => (Nat.div_mul_cancel (Nat.dvd_of_mod_eq_zero h)).symm,
    fun h => by rw [h, Nat.mul_mod_left]⟩

theorem exists_one_eq : ∃ p < 1075, one = 2 ^ p :=
  ⟨1074, by decide, by decide +kernel⟩

/-- The double nearest to an integer of at most 53 bits is the integer. -/
theorem ofInt?_exact {i : Int} (h : i.natAbs < 2 ^ 53) :
    ∃ x, ofInt? i = some x ∧ isWhole x = true ∧ wholePart x = i.natAbs ∧ (x < 0 ↔ i < 0) := by
  obtain ⟨p, hp, hone⟩ := exists_one_eq
  have hpositive := one_pos
  have hexcess : excess (i.natAbs * one) ≤ p := by
    refine excess_le ?_
    rw [← hone]
    exact Nat.mul_lt_mul_of_pos_right h hpositive
  have hbelow : nearestBits (i.natAbs * one) 1 < infinityBits := nearestBits_lt (by omega)
  have hdvd : 2 ^ excess (i.natAbs * one) ∣ i.natAbs * one := by
    rw [hone] at hexcess ⊢
    exact Nat.dvd_mul_left_of_dvd (Nat.pow_dvd_pow 2 hexcess) _
  obtain ⟨hfinite, hsign, hunits⟩ := finite_ofUnits (i < 0) hbelow
  rw [nearestUnits_eq_self hdvd] at hunits
  have hpart : wholePart (ofUnits (i < 0) (i.natAbs * one) 1) = i.natAbs := by
    rw [wholePart, hunits, Nat.mul_div_cancel _ hpositive]
  refine ⟨ofUnits (i < 0) (i.natAbs * one) 1, if_pos hbelow,
    isWhole_iff.mpr ⟨hfinite, by rw [hunits, hpart]⟩, hpart, ?_⟩
  rw [lt_zero_iff hfinite, hsign, hunits, decide_eq_true_iff]
  refine ⟨fun hi => hi.1, fun hi => ⟨hi, ?_⟩⟩
  exact Nat.mul_ne_zero (by omega) hpositive.ne'

/-- The least whole number without a finite double: half a step above the largest of them. -/
def overflow : Nat := Nat.pow 2 1024 - Nat.pow 2 970

/-- The integers without a double are those from there on. -/
theorem ofInt?_eq_none_iff {i : Int} : ofInt? i = none ↔ overflow ≤ i.natAbs := by
  have hlast : nearestBits ((overflow - 1) * one) 1 < infinityBits := by decide +kernel
  have hfirst : infinityBits ≤ nearestBits (overflow * one) 1 := by decide +kernel
  have hbits : infinityBits ≤ nearestBits (i.natAbs * one) 1 ↔ overflow ≤ i.natAbs := by
    constructor
    · intro h
      by_contra hless
      have hbelow : i.natAbs ≤ overflow - 1 := by omega
      have hmono := nearestBits_mono (Nat.mul_le_mul_right one hbelow)
      omega
    · intro h
      exact hfirst.trans (nearestBits_mono (Nat.mul_le_mul_right one h))
  rw [← hbits, ofInt?]
  split_ifs with hfinite
  · simp only [false_iff, Nat.not_le]
    exact hfinite
  · simp only [true_iff]
    exact Nat.not_lt.mp hfinite

end Double
end StackCalc
