/-
  StackCalc.Proofs.Signs

  Doubles and zero.  A finite double is less than zero exactly if its sign is negative and it has
  any units (`lt_zero_iff`), and there is one double for every sign and number of units
  (`eq_of_units`).  So a finite double that is not less than zero equals the one without a sign
  that has its units (`unsigned_beq`), although the two need not be the same: zero has two signs.
-/

import StackCalc.Proofs.Magnitudes

namespace StackCalc
namespace Double

open Float.Model UnpackedFloat

variable {x : Float} {negative : Bool} {mantissa exponent : Nat}

/-! ## Comparison with zero -/

/-- A sign. -/
def signOf (negative : Bool) : Sign := if negative then .negative else .positive

/-- The sign of a double is its topmost bit. -/
theorem ofBitVec_unpackSign (x : Float) :
    Sign.ofBitVec (@unpackSign .binary64 x.toModel.toBits.toBitVec)
      = signOf (x.toBits.toNat / 2 ^ 63 % 2 = 1) := by
  have hzero : @unpackSign .binary64 x.toModel.toBits.toBitVec = 0#1
      ↔ x.toBits.toNat / 2 ^ 63 % 2 = 0 := by
    rw [← BitVec.toNat_inj, toNat_unpackSign]
    rfl
  rw [Sign.ofBitVec, signOf]
  by_cases h : x.toBits.toNat / 2 ^ 63 % 2 = 1
  · rw [if_neg (by rw [hzero]; omega), if_pos (by simpa using h)]
  · rw [if_pos (by rw [hzero]; omega), if_neg (by simpa using h)]

/-- A finite double is a zero if its mantissa is, and else has its sign and its mantissa; its
    exponent counts from that of a unit. -/
theorem unpack_of_finite (h : shape x = .finite negative mantissa exponent) :
    (mantissa = 0 ∧ x.toModel.unpack = .zero (signOf negative))
      ∨ ∃ hm : 0 < mantissa,
        x.toModel.unpack = .finite (signOf negative) mantissa (exponent - 1074) hm := by
  have hsign := ofBitVec_unpackSign x
  have hunpack := UnpackedFloat.unpack.eq_1 .binary64 x.toModel.toBits.toBitVec
  simp only [shape, shapeOfBits, Nat.pow_eq] at h
  split at h
  · split at h <;> cases h
  · rename_i hfinite
    have hbounded : ¬@unpackExponent .binary64 x.toModel.toBits.toBitVec = -1#11 := by
      rw [← BitVec.toNat_inj, toNat_unpackExponent]
      exact hfinite
    rw [if_neg hbounded] at hunpack
    split at h
    · rename_i hsmall
      obtain ⟨rfl, rfl, rfl⟩ := Shape.finite.inj h
      have hsubnormal : @unpackExponent .binary64 x.toModel.toBits.toBitVec = 0#11 := by
        rw [← BitVec.toNat_inj, toNat_unpackExponent]
        exact hsmall
      rw [if_pos hsubnormal, hsign] at hunpack
      by_cases hzero : x.toBits.toNat % 2 ^ 52 = 0
      · have hnothing : @unpackMantissa .binary64 x.toModel.toBits.toBitVec = 0#52 := by
          rw [← BitVec.toNat_inj, toNat_unpackMantissa]
          exact hzero
        rw [dif_pos hnothing] at hunpack
        exact .inl ⟨hzero, hunpack⟩
      · have hsomething : ¬@unpackMantissa .binary64 x.toModel.toBits.toBitVec = 0#52 := by
          rw [← BitVec.toNat_inj, toNat_unpackMantissa]
          exact hzero
        rw [dif_neg hsomething, hsubnormal] at hunpack
        have hmantissa : (@unpackMantissa .binary64 x.toModel.toBits.toBitVec).toNat
            = x.toBits.toNat % 2 ^ 52 := toNat_unpackMantissa x
        simp only [hmantissa] at hunpack
        exact .inr ⟨Nat.pos_of_ne_zero hzero, hunpack⟩
    · rename_i hlarge
      obtain ⟨rfl, rfl, rfl⟩ := Shape.finite.inj h
      have hnormal : ¬@unpackExponent .binary64 x.toModel.toBits.toBitVec = 0#11 := by
        rw [← BitVec.toNat_inj, toNat_unpackExponent]
        exact hlarge
      rw [if_neg hnormal, hsign] at hunpack
      have hmantissa : (1#1 ++ @unpackMantissa .binary64 x.toModel.toBits.toBitVec).toNat
          = 2 ^ 52 + x.toBits.toNat % 2 ^ 52 := by
        rw [BitVec.toNat_append, ← Nat.shiftLeft_add_eq_or_of_lt (BitVec.isLt _),
          toNat_unpackMantissa]
        rfl
      have hexponent : ((@unpackExponent .binary64 x.toModel.toBits.toBitVec).toNat : Int)
            - (Format.binary64.exponentBias + Format.binary64.mantissaBitsWithoutImplicit)
          = (x.toBits.toNat / 2 ^ 52 % 2 ^ 11 - 1 : Nat) - 1074 := by
        rw [toNat_unpackExponent]
        simp only [Format.exponentBias]
        omega
      simp only [hmantissa, hexponent] at hunpack
      exact .inr ⟨by omega, hunpack⟩

theorem unpack_zero : (0 : Float).toModel.unpack = .zero .positive := rfl

theorem lt_iff_compare (x y : Float) :
    x < y ↔ x.toModel.unpack.compare y.toModel.unpack = some .lt := by
  show Float.lt x y = true ↔ _
  simp [Float.lt, Float.Model.lt, UnpackedFloat.lt, LT.lt]

theorem le_iff_compare (x y : Float) :
    x ≤ y ↔ (x.toModel.unpack.compare y.toModel.unpack).any (·.isLE) = true := by
  show decide (Float.Model.le x.toModel y.toModel = true) = true ↔ _
  rw [decide_eq_true_iff]
  rfl

/-- No double lies on both sides of zero. -/
theorem not_lt_zero (h : 0 ≤ x) : ¬x < 0 := by
  rw [le_iff_compare, unpack_zero] at h
  rw [lt_iff_compare, unpack_zero]
  intro hlt
  cases hx : x.toModel.unpack with
  | notANumber => rw [hx] at hlt; cases hlt
  | zero sign => rw [hx] at hlt; cases hlt
  | infinity sign =>
    rw [hx] at h hlt
    cases sign
    · cases h
    · cases hlt
  | finite sign m e hm =>
    rw [hx] at h hlt
    cases sign
    · cases h
    · cases hlt

theorem isFinite_iff : isFinite x = true ↔ ∃ negative mantissa exponent,
    shape x = .finite negative mantissa exponent := by
  rw [isFinite]
  split
  · rename_i negative mantissa exponent hshape
    exact ⟨fun _ => ⟨negative, mantissa, exponent, hshape⟩, fun _ => rfl⟩
  · rename_i hshape
    exact ⟨nofun, fun ⟨negative, mantissa, exponent, h⟩ => (hshape _ _ _ h).elim⟩

/-- A finite double is less than zero if its sign is negative and it is no zero. -/
theorem lt_zero_iff (h : isFinite x = true) : x < 0 ↔ isNegative x = true ∧ units x ≠ 0 := by
  obtain ⟨negative, mantissa, exponent, hshape⟩ := isFinite_iff.mp h
  rw [lt_iff_compare, unpack_zero, isNegative, units, hshape]
  simp only [Nat.pow_eq, ne_eq, Nat.mul_eq_zero, not_or]
  obtain ⟨hzero, hx⟩ | ⟨hpositive, hx⟩ := unpack_of_finite hshape
  · rw [hx]
    simp [UnpackedFloat.compare, hzero]
  · rw [hx]
    cases negative <;> simp [UnpackedFloat.compare, signOf, hpositive.ne']

/-! ## Doubles with the same units -/

/-- The double with a number of units of a double, and no sign. -/
def unsigned (x : Float) : Float := ofMagnitude false (magnitudeBits x)

/-- The magnitude bits of a finite double are those that its units are rounded to. -/
theorem nearestBits_units (h : isFinite x = true) :
    nearestBits (units x) 1 = magnitudeBits x ∧ magnitudeBits x < infinityBits := by
  obtain ⟨negative, mantissa, exponent, hshape⟩ := isFinite_iff.mp h
  obtain ⟨hbelow, hunits, -⟩ := shape_finite hshape
  have hx : units x = unitsOfBits (magnitudeBits x) := by
    rw [hunits, units, hshape]
    rfl
  exact ⟨by rw [hx, nearestBits_unitsOfBits hbelow], hbelow⟩

/-- A finite double without a sign is the one that has its units. -/
theorem unsigned_of_not_isNegative (h : isFinite x = true) (hsign : isNegative x = false) :
    unsigned x = x := by
  obtain ⟨negative, mantissa, exponent, hshape⟩ := isFinite_iff.mp h
  rw [isNegative, hshape] at hsign
  obtain rfl : negative = false := hsign
  exact (shape_finite hshape).2.2

/-- A finite double is known by its sign and its units. -/
theorem eq_of_units {y : Float} (hx : isFinite x = true) (hy : isFinite y = true)
    (hsign : isNegative x = isNegative y) (hunits : units x = units y) : x = y := by
  obtain ⟨negative, mantissa, exponent, hxshape⟩ := isFinite_iff.mp hx
  obtain ⟨negative', mantissa', exponent', hyshape⟩ := isFinite_iff.mp hy
  rw [isNegative, isNegative, hxshape, hyshape] at hsign
  obtain rfl : negative = negative' := hsign
  have hbits : magnitudeBits x = magnitudeBits y := by
    rw [← (nearestBits_units hx).1, ← (nearestBits_units hy).1, hunits]
  rw [← (shape_finite hxshape).2.2, ← (shape_finite hyshape).2.2, hbits]

/-- A finite double that is not less than zero equals the one that has its units and no sign. -/
theorem unsigned_beq (h : isFinite x = true) (hsign : ¬x < 0) : (unsigned x == x) = true := by
  obtain ⟨negative, mantissa, exponent, hshape⟩ := isFinite_iff.mp h
  have hnumber : x ≠ Float.nan := by
    rintro rfl
    have hnan : shape Float.nan = .nan := by decide +kernel
    rw [hnan] at hshape
    cases hshape
  by_cases hnegative : isNegative x = true
  · -- Only a zero is left, and it is the negative one.
    have hunits : units x = 0 := by
      by_contra hunits
      exact hsign ((lt_zero_iff h).mpr ⟨hnegative, hunits⟩)
    have hbits : magnitudeBits x = 0 := by
      rw [← (nearestBits_units h).1, hunits]
      decide +kernel
    obtain ⟨-, -, hx⟩ := shape_finite hshape
    rw [isNegative, hshape] at hnegative
    obtain rfl : negative = true := hnegative
    rw [hbits] at hx
    rw [unsigned, hbits, ← hx]
    decide +kernel
  · rw [unsigned_of_not_isNegative h (by simpa using hnegative), Float.beq_self_iff]
    exact hnumber

/-- The integer that a whole double is has the double without its sign as its nearest one. -/
theorem ofInt?_wholePart (h : isWhole x = true) : ofInt? (wholePart x : Int) = some (unsigned x) := by
  rw [isWhole, Bool.and_eq_true, decide_eq_true_eq] at h
  obtain ⟨hfinite, hwhole⟩ := h
  obtain ⟨hbits, hbelow⟩ := nearestBits_units hfinite
  have hunits : wholePart x * one = units x := Nat.div_mul_cancel (Nat.dvd_of_mod_eq_zero hwhole)
  have hsign : ¬((wholePart x : Int) < 0) := by omega
  simp only [ofInt?, Int.natAbs_natCast, hunits, hbits, hbelow, if_true, hsign, decide_false]
  rfl

end Double
end StackCalc
