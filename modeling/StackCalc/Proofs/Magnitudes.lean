/-
  StackCalc.Proofs.Magnitudes

  A double is its sign and its magnitude bits, and below infinity the magnitude bits
  say as much as the units do.  Rounding depends on a ratio alone, and it gives the
  units of a double the bits that they come from.
-/

import Mathlib
import StackCalc.Double.Basic

namespace StackCalc
namespace Double

variable {x : Float} {negative : Bool} {mantissa exponent bits : Nat}

theorem one_pos : 0 < one := by decide +kernel

/-! ## Bits -/

/-- The bits of a double without its sign. -/
def magnitudeBits (x : Float) : Nat := x.toBits.toNat % Nat.pow 2 63

/-- The units of the finite double with these magnitude bits. -/
def unitsOfBits (bits : Nat) : Nat :=
  if bits < Nat.pow 2 52 then bits
  else (Nat.pow 2 52 + bits % Nat.pow 2 52) * Nat.pow 2 (bits / Nat.pow 2 52 - 1)

theorem unitsOfBits_of_lt (h : bits < 2 ^ 52) : unitsOfBits bits = bits :=
  if_pos h

theorem unitsOfBits_of_le (h : 2 ^ 52 ≤ bits) :
    unitsOfBits bits = (2 ^ 52 + bits % 2 ^ 52) * 2 ^ (bits / 2 ^ 52 - 1) :=
  if_neg (Nat.not_lt.2 h)

/-- The bits of a double are those of its sign and of its magnitude. -/
theorem ofMagnitude_magnitudeBits (x : Float) :
    ofMagnitude (x.toBits.toNat / Nat.pow 2 63 % 2 = 1) (magnitudeBits x) = x := by
  have below : x.toBits.toNat < 2 ^ 64 := x.toBits.toNat_lt
  have whole : (if decide (x.toBits.toNat / Nat.pow 2 63 % 2 = 1) then
      Nat.pow 2 63 + magnitudeBits x else magnitudeBits x) = x.toBits.toNat := by
    simp only [magnitudeBits, Nat.pow_eq, decide_eq_true_eq]
    split <;> omega
  rw [ofMagnitude, whole, UInt64.ofNat_toNat, Float.ofBits_toBits]

/-- A finite double has the magnitude bits of its units, and its sign. -/
theorem shape_finite (h : shape x = .finite negative mantissa exponent) :
    magnitudeBits x < infinityBits ∧ unitsOfBits (magnitudeBits x) = mantissa * 2 ^ exponent ∧
      ofMagnitude negative (magnitudeBits x) = x := by
  have whole := ofMagnitude_magnitudeBits x
  have magnitude : magnitudeBits x = x.toBits.toNat % 2 ^ 63 := rfl
  simp only [shape, shapeOfBits] at h
  simp only [infinityBits, Nat.pow_eq] at h ⊢
  split at h
  · split at h <;> cases h
  · rename_i biased
    split at h
    · rename_i zero
      obtain ⟨rfl, rfl, rfl⟩ := Shape.finite.inj h
      refine ⟨by omega, ?_, whole⟩
      rw [unitsOfBits_of_lt (by omega)]
      omega
    · rename_i positive
      obtain ⟨rfl, rfl, rfl⟩ := Shape.finite.inj h
      refine ⟨by omega, ?_, whole⟩
      rw [unitsOfBits_of_le (by omega)]
      congr 2 <;> omega

/-- An infinity is known by its sign. -/
theorem shape_infinite (h : shape x = .infinite negative) :
    x = ofMagnitude negative infinityBits := by
  have whole := ofMagnitude_magnitudeBits x
  have magnitude : magnitudeBits x = x.toBits.toNat % 2 ^ 63 := rfl
  simp only [shape, shapeOfBits] at h
  simp only [Nat.pow_eq] at h
  split at h
  · rename_i biased
    split at h
    · rename_i zero
      obtain rfl := Shape.infinite.inj h
      have bits : magnitudeBits x = infinityBits := by
        simp only [infinityBits, Nat.pow_eq]
        omega
      exact whole.symm.trans (by rw [bits])
    · cases h
  · split at h <;> cases h

section

open Float.Model UnpackedFloat

theorem toNat_unpackSign (x : Float) :
    (@unpackSign .binary64 x.toModel.toBits.toBitVec).toNat = x.toBits.toNat / 2 ^ 63 % 2 := by
  rw [unpackSign_def, BitVec.extractLsb'_toNat, Nat.shiftRight_eq_div_pow]
  rfl

theorem toNat_unpackExponent (x : Float) :
    (@unpackExponent .binary64 x.toModel.toBits.toBitVec).toNat
      = x.toBits.toNat / 2 ^ 52 % 2 ^ 11 := by
  rw [unpackExponent_def, BitVec.extractLsb'_toNat, Nat.shiftRight_eq_div_pow]
  rfl

theorem toNat_unpackMantissa (x : Float) :
    (@unpackMantissa .binary64 x.toModel.toBits.toBitVec).toNat = x.toBits.toNat % 2 ^ 52 := by
  rw [unpackMantissa_def, BitVec.extractLsb'_toNat]
  rfl

/-- Only one double is no number. -/
theorem shape_nan (h : shape x = .nan) : x = nan := by
  simp only [shape, shapeOfBits, Nat.pow_eq] at h
  split at h
  · rename_i biased
    split at h
    · cases h
    · rename_i fraction
      have exponent : @unpackExponent .binary64 x.toModel.toBits.toBitVec = -1#_ := by
        rw [← BitVec.toNat_inj, toNat_unpackExponent]
        exact biased
      have mantissa : @unpackMantissa .binary64 x.toModel.toBits.toBitVec ≠ 0#_ := by
        rw [ne_eq, ← BitVec.toNat_inj, toNat_unpackMantissa]
        exact fraction
      rw [← Float.toBits_inj, ← UInt64.toBitVec_inj]
      exact x.toModel.valid.eq_packedNaN exponent mantissa
  · split at h <;> cases h

end

/-! ## Rounding -/

theorem roundHalfEven_mul {c : Nat} (n d : Nat) (h : 0 < c) :
    roundHalfEven (n * c) (d * c) = roundHalfEven n d := by
  have less (a b : Nat) : a * c < b * c ↔ a < b := Nat.mul_lt_mul_right h
  simp only [roundHalfEven, Nat.mul_div_mul_right _ _ h, Nat.mul_mod_mul_right, ← Nat.mul_assoc,
    less, gt_iff_lt]

theorem roundHalfEven_one (n : Nat) : roundHalfEven n 1 = n := by
  simp [roundHalfEven, Nat.mod_one]

/-- Rounding depends on the ratio alone. -/
theorem nearestBits_mul {c : Nat} (n d : Nat) (h : 0 < c) :
    nearestBits (n * c) (d * c) = nearestBits n d := by
  simp only [nearestBits, Nat.mul_div_mul_right _ _ h, Nat.mul_right_comm d c,
    roundHalfEven_mul _ _ h]

theorem log2_unitsOfBits (h : 2 ^ 52 ≤ bits) :
    (unitsOfBits bits).log2 = 52 + (bits / 2 ^ 52 - 1) := by
  rw [unitsOfBits_of_le h, Nat.log2_eq_iff (by positivity), Nat.pow_add, Nat.add_right_comm,
    Nat.pow_add]
  exact ⟨Nat.mul_le_mul_right _ (by omega), Nat.mul_lt_mul_of_pos_right (by omega) (by positivity)⟩

/-- The double nearest to the units of a double is this double. -/
theorem nearestBits_unitsOfBits (h : bits < infinityBits) :
    nearestBits (unitsOfBits bits) 1 = bits := by
  simp only [infinityBits, Nat.pow_eq] at h
  simp only [nearestBits, infinityBits, Nat.pow_eq, Nat.div_one, Nat.one_mul]
  rcases Nat.lt_or_ge bits (2 ^ 52) with subnormal | normal
  · have shift : bits.log2 - 52 = 0 := by
      rcases Nat.eq_zero_or_pos bits with rfl | positive
      · rfl
      · have := (Nat.log2_lt (by omega)).2 subnormal
        omega
    rw [unitsOfBits_of_lt subnormal, shift, Nat.pow_zero, roundHalfEven_one]
    omega
  · -- the mantissa comes back whole, and its top bit is the one that the exponent lacks
    have shift : (unitsOfBits bits).log2 - 52 = bits / 2 ^ 52 - 1 := by
      rw [log2_unitsOfBits normal]
      omega
    have whole := roundHalfEven_mul (2 ^ 52 + bits % 2 ^ 52) 1 (Nat.two_pow_pos (bits / 2 ^ 52 - 1))
    rw [Nat.one_mul, roundHalfEven_one] at whole
    rw [shift, unitsOfBits_of_le normal, whole]
    omega

end Double
end StackCalc
