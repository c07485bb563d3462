/-
  StackCalc.Proofs.Comparisons

  The order of the doubles.  Two doubles are compared by their signs, exponents and mantissas;
  a zero lies between the negative and the positive numbers whatever its sign, and a non-number
  is compared to nothing.  Every other double has a `rank` in a linear order, and all three
  comparisons are those of the ranks (`lt_iff_rank`, `le_iff_rank`, `beq_iff_rank`), so they have
  the laws of a linear order, in which only the two zeros have one place.
-/

import Mathlib.Data.Prod.Lex
import StackCalc.Proofs.Signs

namespace StackCalc
namespace Double

open Float.Model

/-! ## Ranks -/

/-- Where a double that is a number stands among all of them: on which side of zero, and how far
    away from it by exponent and then by mantissa. -/
def unpackedRank : UnpackedFloat → ℤ ×ₗ ℤ ×ₗ ℤ
  | .infinity .negative => toLex (-2, toLex (0, 0))
  | .finite .negative mantissa exponent _ => toLex (-1, toLex (-exponent, -mantissa))
  | .notANumber => toLex (0, toLex (0, 0))
  | .zero _ => toLex (0, toLex (0, 0))
  | .finite .positive mantissa exponent _ => toLex (1, toLex (exponent, mantissa))
  | .infinity .positive => toLex (2, toLex (0, 0))

/-- The rank of a double. -/
def rank (x : Float) : ℤ ×ₗ ℤ ×ₗ ℤ := unpackedRank x.toModel.unpack

/-- Ranks are compared part by part. -/
theorem compare_toLex (side side' far far' near near' : ℤ) :
    compare (toLex (side, toLex (far, near)) : ℤ ×ₗ ℤ ×ₗ ℤ) (toLex (side', toLex (far', near')))
      = (compare side side').then ((compare far far').then (compare near near')) := by
  rw [Prod.Lex.compare_def]
  rfl

/-- Numbers change sides with their signs. -/
theorem compare_neg (a b : ℤ) : compare (-a) (-b) = (compare a b).swap := by
  rcases lt_trichotomy a b with hlt | rfl | hgt
  · rw [compare_lt_iff_lt.mpr hlt, compare_gt_iff_gt.mpr (neg_lt_neg hlt)]
    rfl
  · rw [compare_eq_iff_eq.mpr rfl, compare_eq_iff_eq.mpr rfl]
    rfl
  · rw [compare_gt_iff_gt.mpr hgt, compare_lt_iff_lt.mpr (neg_lt_neg hgt)]
    rfl

theorem compare_natCast (m n : Nat) : compare (m : ℤ) n = compare m n := by
  rcases lt_trichotomy m n with hlt | rfl | hgt
  · rw [compare_lt_iff_lt.mpr hlt, compare_lt_iff_lt.mpr (Int.ofNat_lt.mpr hlt)]
  · rw [compare_eq_iff_eq.mpr rfl, compare_eq_iff_eq.mpr rfl]
  · rw [compare_gt_iff_gt.mpr hgt, compare_gt_iff_gt.mpr (Int.ofNat_lt.mpr hgt)]

/-- Numbers are compared by their ranks. -/
theorem compare_eq_rank {a b : UnpackedFloat} (ha : a ≠ .notANumber) (hb : b ≠ .notANumber) :
    a.compare b = some (compare (unpackedRank a) (unpackedRank b)) := by
  -- Zeros, infinities and numbers of different signs are told apart by their sides alone.
  cases a with
  | notANumber => exact absurd rfl ha
  | infinity sign =>
    cases b with
    | notANumber => exact absurd rfl hb
    | infinity sign' => cases sign <;> cases sign' <;> rfl
    | zero sign' => cases sign <;> rfl
    | finite sign' m' e' hm' => cases sign <;> cases sign' <;> rfl
  | zero sign =>
    cases b with
    | notANumber => exact absurd rfl hb
    | infinity sign' => cases sign' <;> rfl
    | zero sign' => rfl
    | finite sign' m' e' hm' => cases sign' <;> rfl
  | finite sign m e hm =>
    cases b with
    | notANumber => exact absurd rfl hb
    | infinity sign' => cases sign <;> cases sign' <;> rfl
    | zero sign' => cases sign <;> rfl
    | finite sign' m' e' hm' =>
      -- On one side of zero the exponents decide, and then the mantissas.
      cases sign with
      | negative =>
        cases sign' with
        | negative =>
          -- Below zero the number that is further away is the lesser one.
          simp only [unpackedRank, compare_toLex, compare_neg, compare_natCast,
            compare_eq_iff_eq.mpr (rfl : (-1 : ℤ) = -1)]
          show some ((compare e e').then (compare m m')).swap = _
          rw [Ordering.swap_then]
          rfl
        | positive => rfl
      | positive =>
        cases sign' with
        | negative => rfl
        | positive =>
          rw [unpackedRank, unpackedRank, compare_toLex, compare_natCast]
          rfl

/-! ## Comparisons of numbers -/

variable {x y z : Float}

theorem unpack_ne_notANumber (h : isNaN x = false) : x.toModel.unpack ≠ .notANumber := by
  have hnumber : x ≠ Float.nan := by
    rintro rfl
    revert h
    decide +kernel
  -- A non-number would not equal itself.
  have hself : (x == x) = true := Float.beq_self_iff.mpr hnumber
  intro hunpack
  have hcompare : (x.toModel.unpack.compare x.toModel.unpack == some .eq) = true := hself
  rw [hunpack] at hcompare
  cases hcompare

section

variable (hx : isNaN x = false) (hy : isNaN y = false)

include hx hy

theorem compare_unpack :
    x.toModel.unpack.compare y.toModel.unpack = some (compare (rank x) (rank y)) :=
  compare_eq_rank (unpack_ne_notANumber hx) (unpack_ne_notANumber hy)

theorem lt_iff_rank : x < y ↔ rank x < rank y := by
  rw [lt_iff_compare, compare_unpack hx hy, Option.some_inj, compare_lt_iff_lt]

theorem le_iff_rank : x ≤ y ↔ rank x ≤ rank y := by
  rw [le_iff_compare, compare_unpack hx hy, ← compare_le_iff_le]
  exact Ordering.isLE_iff_ne_gt

theorem beq_iff_rank : (x == y) = true ↔ rank x = rank y := by
  show (x.toModel.unpack.compare y.toModel.unpack == some .eq) = true ↔ _
  rw [compare_unpack hx hy, beq_iff_eq, Option.some_inj, compare_eq_iff_eq]

/-- One of two numbers is at most the other. -/
protected theorem le_of_not_lt (h : ¬y < x) : x ≤ y := by
  rw [lt_iff_rank hy hx, not_lt] at h
  exact (le_iff_rank hx hy).mpr h

protected theorem le_of_lt (h : x < y) : x ≤ y :=
  (le_iff_rank hx hy).mpr ((lt_iff_rank hx hy).mp h).le

protected theorem le_trans (hz : isNaN z = false) (h : x ≤ y) (h' : y ≤ z) : x ≤ z :=
  (le_iff_rank hx hz).mpr (((le_iff_rank hx hy).mp h).trans ((le_iff_rank hy hz).mp h'))

/-- Numbers that are at most each other are equal, although they may be two zeros. -/
protected theorem beq_of_le_of_le (h : x ≤ y) (h' : y ≤ x) : (x == y) = true :=
  (beq_iff_rank hx hy).mpr (((le_iff_rank hx hy).mp h).antisymm ((le_iff_rank hy hx).mp h'))

end

protected theorem le_refl (hx : isNaN x = false) : x ≤ x :=
  (le_iff_rank hx hx).mpr le_rfl

end Double
end StackCalc
