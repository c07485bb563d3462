/-
  StackCalc.Proofs.Sums

  Sums of doubles.  The addition of doubles shifts both mantissas to one exponent, adds them, and
  shifts the sum back to 53 bits, keeping of the bits that go out whether the first is set and
  whether any other is.  That is enough to know on which side of one half the remainder lies
  (`Keeps`), so the result is the double nearest to the sum of the units (`add_eq_ofUnits`).
-/

import StackCalc.Proofs.NearestDoubles

namespace StackCalc
namespace Double

open Float.Model UnpackedFloat

variable {x : Float} {negative : Bool} {m n d k r c bits : Nat} {e : Int}

/-! ## Shifting and rounding -/

/-- An extended mantissa holds the quotient of a division, and of its remainder whether it is
    nothing, less than half of the divisor, half of it, or more. -/
structure Keeps (em : ExtendedMantissa) (n d : Nat) : Prop where
  quotient : em.mantissa = n / d
  half : em.roundBit = true ↔ d ≤ 2 * (n % d)
  between : em.stickyBit = true ↔ 2 * (n % d) ≠ 0 ∧ 2 * (n % d) ≠ d

theorem keeps_exact (n : Nat) : Keeps (.ofMantissaAndAccuracy n .exact) n 1 where
  quotient := (Nat.div_one n).symm
  half := by simp [ExtendedMantissa.ofMantissaAndAccuracy, Nat.mod_one]
  between := by simp [ExtendedMantissa.ofMantissaAndAccuracy, Nat.mod_one]

theorem Keeps.shiftRightOne {em : ExtendedMantissa} (h : Keeps em n d) (hd : 0 < d) :
    Keeps em.shiftRightOne n (d * 2) := by
  have hrest : n % (d * 2) = n % d + d * (n / d % 2) := Nat.mod_mul
  have hless : n % d < d := Nat.mod_lt n hd
  obtain ⟨hquotient, hhalf, hbetween⟩ := h
  refine ⟨?_, ?_, ?_⟩
  · rw [ExtendedMantissa.shiftRightOne, hquotient, Nat.div_div_eq_div_mul]
  · rw [ExtendedMantissa.shiftRightOne, hquotient, hrest]
    rcases Nat.mod_two_eq_zero_or_one (n / d) with hbit | hbit <;> simp [hbit] <;> omega
  · have hsticky : em.shiftRightOne.stickyBit = true
        ↔ em.roundBit = true ∨ em.stickyBit = true := by
      simp [ExtendedMantissa.shiftRightOne]
    rw [hsticky, hhalf, hbetween, hrest]
    rcases Nat.mod_two_eq_zero_or_one (n / d) with hbit | hbit <;> rw [hbit] <;> omega

theorem Keeps.roundedMantissa {em : ExtendedMantissa} (h : Keeps em n d) (hd : 0 < d) :
    em.roundedMantissa = roundHalfEven n d := by
  obtain ⟨mantissa, round, sticky⟩ := em
  obtain ⟨hquotient, hhalf, hbetween⟩ := h
  dsimp only at hquotient hhalf hbetween
  subst hquotient
  rw [roundHalfEven]
  cases round <;> cases sticky <;>
    simp only [ExtendedMantissa.roundedMantissa, ExtendedMantissa.accuracy,
      Accuracy.roundToNearestEven, Bool.false_eq_true, false_iff, true_iff] at hhalf hbetween ⊢ <;>
    (split_ifs <;> omega)

/-- Shifting a mantissa by some bits keeps its quotient by a power of two. -/
theorem keeps_shiftRight (n k : Nat) :
    Keeps (ExtendedMantissa.ofMantissaAndAccuracy n .exact >>> k) n (2 ^ k) := by
  induction k with
  | zero => exact keeps_exact n
  | succ k ih =>
    rw [Nat.pow_succ]
    exact ih.shiftRightOne (Nat.two_pow_pos k)

theorem roundedMantissa_shiftRight (n k : Nat) :
    (ExtendedMantissa.ofMantissaAndAccuracy n .exact >>> k).roundedMantissa
      = roundHalfEven n (2 ^ k) :=
  (keeps_shiftRight n k).roundedMantissa (Nat.two_pow_pos k)

/-! ## Rounding to a format -/

/-- The exponent of the double nearest to a mantissa with an exponent. -/
abbrev goal (m : Nat) (e : Int) : Int := Format.binary64.targetExponent (totalExponent m e)

theorem goal_eq (m : Nat) (e : Int) : goal m e = max (m.log2 + e - 52) (-1074) := by
  simp only [goal, Format.targetExponent, totalExponent, Format.mantissaBits, Format.minExponent]
  omega

theorem log2_mul_two_pow (hm : 0 < m) (k : Nat) : (m * 2 ^ k).log2 = m.log2 + k := by
  have hne : m ≠ 0 := by omega
  rw [Nat.log2_eq_iff (Nat.mul_ne_zero hne (Nat.two_pow_pos k).ne'), Nat.pow_add,
    Nat.add_right_comm, Nat.pow_add]
  exact ⟨Nat.mul_le_mul_right _ (Nat.log2_self_le hne),
    Nat.mul_lt_mul_of_pos_right Nat.lt_log2_self (Nat.two_pow_pos k)⟩

/-- A mantissa that fits is not shifted. -/
theorem shiftToTargetExponent_of_lt (hr : r < 2 ^ 53) (he : -1074 ≤ e) :
    shiftToTargetExponent .binary64 r e .exact = (.ofMantissaAndAccuracy r .exact, e) := by
  have hlog : r.log2 - 52 = 0 := excess_of_lt hr
  have hnothing : (goal r e - e).toNat = 0 := by
    rw [goal_eq]
    omega
  simp only [shiftToTargetExponent, shiftToExponent, hnothing]
  rw [Int.natCast_zero, Int.add_zero]
  rfl

/-- A mantissa that has become too large by rounding is halved. -/
theorem shiftToTargetExponent_two_pow (he : -1074 ≤ e) :
    shiftToTargetExponent .binary64 (2 ^ 53) e .exact
      = (.ofMantissaAndAccuracy (2 ^ 52) .exact, e + 1) := by
  have hone : (goal (2 ^ 53) e - e).toNat = 1 := by
    rw [goal_eq, Nat.log2_two_pow]
    omega
  simp only [shiftToTargetExponent, shiftToExponent, hone]
  rfl

/-- A rounded mantissa has at most 53 bits or is the next power of two, and it has no fewer unless
    its exponent is the least one. -/
theorem roundHalfEven_bounds (hm : 0 < m) (hk : e + k = goal m e) :
    roundHalfEven m (2 ^ k) ≤ 2 ^ 53 ∧ (2 ^ 52 ≤ roundHalfEven m (2 ^ k) ∨ e + k = -1074) := by
  rw [goal_eq] at hk
  refine ⟨roundHalfEven_le ?_ (Nat.two_pow_pos k), ?_⟩
  · rw [← Nat.pow_add]
    exact Nat.le_of_lt (Nat.lt_of_lt_of_le Nat.lt_log2_self
      (Nat.pow_le_pow_right (by decide) (by omega)))
  · by_cases hleast : e + k = -1074
    · exact .inr hleast
    · have hlog : 52 + k = m.log2 := by omega
      refine .inl (le_roundHalfEven ?_ (Nat.two_pow_pos k))
      rw [← Nat.pow_add, hlog]
      exact Nat.log2_self_le (by omega)

/-- Rounding gives the rounded quotient, halved if it has become too large. -/
theorem roundWithAccuracy_eq (sign : Sign) (hm : 0 < m) (hk : e + k = goal m e)
    (hr : r = roundHalfEven m (2 ^ k)) :
    roundWithAccuracy .binary64 sign m e .exact
      = if hzero : r = 0 then .zero sign
        else if r < 2 ^ 53 then .finite sign r (e + k) (Nat.pos_of_ne_zero hzero)
        else .finite sign (2 ^ 52) (e + k + 1) (by decide) := by
  have hshift : (goal m e - e).toNat = k := by omega
  have hlow : -1074 ≤ e + k := by
    rw [hk, goal_eq]
    omega
  have hle : r ≤ 2 ^ 53 := hr ▸ (roundHalfEven_bounds hm hk).1
  have hfirst : shiftToTargetExponent .binary64 m e .exact
      = (ExtendedMantissa.ofMantissaAndAccuracy m .exact >>> k, e + k) := by
    simp only [shiftToTargetExponent, shiftToExponent, hshift]
  simp only [roundWithAccuracy, hfirst, roundedMantissa_shiftRight, ← hr]
  rcases Nat.lt_or_eq_of_le hle with hless | hmost
  · simp only [shiftToTargetExponent_of_lt hless hlow, hless, if_true]
    rfl
  · subst hmost
    simp only [shiftToTargetExponent_two_pow hlow]
    rfl

/-! ## Packing -/

theorem toNat_packComponents (biased : BitVec 11) (fraction : BitVec 52) :
    (packComponents .binary64 .positive biased fraction).toNat
      = biased.toNat * 2 ^ 52 + fraction.toNat := by
  have hsign : (Sign.positive.toBitVec ++ biased).toNat = biased.toNat := by
    rw [BitVec.toNat_append]
    simp [Sign.toBitVec]
  rw [packComponents, BitVec.toNat_append, hsign,
    ← Nat.shiftLeft_add_eq_or_of_lt fraction.isLt, Nat.shiftLeft_eq]

/-- The bits of a positive number with a mantissa of at most 53 bits, of fewer only if the
    exponent is the least one. -/
theorem toNat_pack (hm : 0 < m) (hless : m < 2 ^ 53) (hlow : -1074 ≤ e)
    (hfull : 2 ^ 52 ≤ m ∨ e = -1074) :
    (UnpackedFloat.pack .binary64 (.finite .positive m e hm)).toNat
      = min ((e + 1074).toNat * 2 ^ 52 + m) infinityBits := by
  have hbiased : (e + Format.binary64.exponentBias + 52).toNat = (e + 1074).toNat + 1 := by
    simp only [Format.exponentBias]
    omega
  have hpack : UnpackedFloat.pack .binary64 (.finite .positive m e hm)
      = if 2 ^ 11 ≤ (e + 1074).toNat + 1 + 1 then packedInfinity .binary64 .positive
        else if m.log2 + 1 = 53 then
          packComponents .binary64 .positive (BitVec.ofNat 11 ((e + 1074).toNat + 1))
            (BitVec.ofNat 52 m)
        else packComponents .binary64 .positive 0 (BitVec.ofNat 52 m) := by
    rw [← hbiased]
    rfl
  rw [hpack, infinityBits, Nat.pow_eq]
  split_ifs with hlarge hnormal
  · rw [packedInfinity, toNat_packComponents]
    simp only [BitVec.toNat_neg, BitVec.toNat_ofNat, BitVec.ofNat_eq_ofNat]
    omega
  · have hlog : m.log2 = 52 := by omega
    have hleast : 2 ^ 52 ≤ m := (Nat.le_log2 (by omega)).1 (Nat.le_of_eq hlog.symm)
    rw [toNat_packComponents, BitVec.toNat_ofNat, BitVec.toNat_ofNat]
    omega
  · have hlog : m.log2 < 52 := by
      have := (Nat.log2_lt (by omega)).2 hless
      omega
    have hpart : m < 2 ^ 52 := (Nat.log2_lt (by omega)).1 hlog
    obtain rfl : e = -1074 := by omega
    rw [toNat_packComponents, BitVec.toNat_ofNat]
    simp only [BitVec.ofNat_eq_ofNat, BitVec.toNat_ofNat]
    omega

/-- Rounding a mantissa whose exponent is not too large gives the bits of the double that is nearest
    to its number of units. -/
theorem toNat_pack_roundWithAccuracy (hm : 0 < m) (hlow : -1074 ≤ e) (hgoal : e ≤ goal m e) :
    (UnpackedFloat.pack .binary64 (roundWithAccuracy .binary64 .positive m e .exact)).toNat
      = nearestBits (m * 2 ^ (e + 1074).toNat) 1 := by
  obtain ⟨k, hk⟩ : ∃ k : Nat, e + k = goal m e := ⟨(goal m e - e).toNat, by omega⟩
  obtain ⟨r, hr⟩ : ∃ r, r = roundHalfEven m (2 ^ k) := ⟨_, rfl⟩
  obtain ⟨hmost, hfull⟩ := roundHalfEven_bounds hm hk
  rw [← hr] at hmost hfull
  have hbits : nearestBits (m * 2 ^ (e + 1074).toNat) 1
      = min ((e + k + 1074).toNat * 2 ^ 52 + r) infinityBits := by
    have hshift : (m * 2 ^ (e + 1074).toNat).log2 - 52 = (e + k + 1074).toNat := by
      rw [log2_mul_two_pow hm, hk, goal_eq]
      omega
    have hpower : 2 ^ (e + k + 1074).toNat = 2 ^ k * 2 ^ (e + 1074).toNat := by
      rw [← Nat.pow_add]
      congr 1
      omega
    rw [nearestBits, Nat.div_one, hshift, Nat.one_mul, Nat.pow_eq, Nat.pow_eq, hpower,
      roundHalfEven_mul _ _ (Nat.two_pow_pos _), hr]
  rw [hbits, roundWithAccuracy_eq .positive hm hk hr]
  split_ifs with hzero hless
  · -- Nothing is left only of a number of the least exponent.
    have hleast : (e + k + 1074).toNat = 0 := by omega
    rw [hleast, hzero]
    rfl
  · exact toNat_pack _ hless (by omega) hfull
  · -- The carry goes into the exponent.
    obtain rfl : r = 2 ^ 53 := by omega
    rw [toNat_pack _ (by decide) (by omega) (.inl (Nat.le_refl _))]
    omega

/-- The same for every exponent: one that is too large is made less first. -/
theorem toNat_pack_round (hm : 0 < m) (hlow : -1074 ≤ e) :
    (UnpackedFloat.pack .binary64 (UnpackedFloat.round .binary64 .positive m e)).toNat
      = nearestBits (m * 2 ^ (e + 1074).toNat) 1 := by
  obtain ⟨j, hj⟩ : ∃ j, j = (e - goal m e).toNat := ⟨_, rfl⟩
  have hlog : (m * 2 ^ j).log2 = m.log2 + j := log2_mul_two_pow hm j
  have hgoal : goal (m * 2 ^ j) (e - j) = goal m e := by
    rw [goal_eq, goal_eq, hlog]
    omega
  have hleast : -1074 ≤ goal m e := by
    rw [goal_eq]
    omega
  have hround : UnpackedFloat.round .binary64 .positive m e
      = roundWithAccuracy .binary64 .positive (m * 2 ^ j) (e - j) .exact := by
    rw [← Nat.shiftLeft_eq, hj]
    rfl
  have hunits : m * 2 ^ j * 2 ^ (e - j + 1074).toNat = m * 2 ^ (e + 1074).toNat := by
    rw [Nat.mul_assoc, ← Nat.pow_add]
    congr 2
    omega
  rw [hround, toNat_pack_roundWithAccuracy (Nat.mul_pos hm (Nat.two_pow_pos j)) (by omega)
    (by omega), hunits]

/-! ## Sums -/

theorem eq_ofMagnitude (h : x.toBits.toNat = bits) : x = ofMagnitude false bits := by
  subst h
  exact ((congrArg Float.ofBits UInt64.ofNat_toNat).trans (Float.ofBits_toBits x)).symm

/-- Packing what a finite double without a sign is unpacked to gives its magnitude bits. -/
theorem toNat_pack_of_shape (h : shape x = .finite negative m c) (hm : 0 < m) :
    (UnpackedFloat.pack .binary64 (.finite .positive m (c - 1074) hm)).toNat = magnitudeBits x := by
  obtain ⟨hbits, hless, hfull⟩ := magnitudeBits_of_shape h
  have hbelow := (shape_finite h).1
  rw [toNat_pack hm hless (by omega) (by omega), Int.sub_add_cancel, Int.toNat_natCast, ← hbits]
  omega

/-- The absolute value of a finite double is the double without its sign. -/
theorem abs_eq_unsigned (h : isFinite x = true) : x.abs = unsigned x := by
  obtain ⟨negative, m, c, hshape⟩ := isFinite_iff.mp h
  refine eq_ofMagnitude ?_
  show (UnpackedFloat.pack .binary64 x.toModel.unpack.abs).toNat = magnitudeBits x
  obtain ⟨hzero, hx⟩ | ⟨hm, hx⟩ := unpack_of_finite hshape
  · obtain ⟨hbits, -, hfull⟩ := magnitudeBits_of_shape hshape
    obtain rfl : c = 0 := by omega
    rw [hx, hbits, hzero]
    rfl
  · rw [hx]
    exact toNat_pack_of_shape hshape hm

/-- The sum of two positive numbers is brought to the exponent of the smaller one and rounded. -/
theorem toNat_pack_add {m' c' : Nat} (hm : 0 < m) (hm' : 0 < m') :
    (UnpackedFloat.pack .binary64 (UnpackedFloat.add .binary64
      (.finite .positive m (c - 1074) hm) (.finite .positive m' (c' - 1074) hm'))).toNat
      = nearestBits (m * 2 ^ c + m' * 2 ^ c') 1 := by
  obtain ⟨least, hleast⟩ : ∃ least, least = min c c' := ⟨_, rfl⟩
  have hexponent : min ((c : Int) - 1074) (c' - 1074) = (least : Int) - 1074 := by omega
  have hshift : ((c : Int) - 1074 - (least - 1074)).toNat = c - least := by omega
  have hshift' : ((c' : Int) - 1074 - (least - 1074)).toNat = c' - least := by omega
  obtain ⟨sum, hsum⟩ : ∃ sum, sum = m * 2 ^ (c - least) + m' * 2 ^ (c' - least) := ⟨_, rfl⟩
  have hpositive : 0 < sum := by
    have := Nat.mul_pos hm (Nat.two_pow_pos (c - least))
    omega
  have hadd : UnpackedFloat.add .binary64
      (.finite .positive m (c - 1074) hm) (.finite .positive m' (c' - 1074) hm')
      = UnpackedFloat.round .binary64 .positive sum (least - 1074) := by
    simp only [UnpackedFloat.add, decreaseExponent, hexponent, hshift, hshift', Nat.shiftLeft_eq,
      Sign.apply, ← Int.natCast_add, ← hsum]
    rw [UnpackedFloat.normalize.eq_1, compare_gt_iff_gt.mpr (by omega), Int.toNat_natCast]
  have hunits : sum * 2 ^ least = m * 2 ^ c + m' * 2 ^ c' := by
    rw [hsum, Nat.add_mul, Nat.mul_assoc, Nat.mul_assoc, ← Nat.pow_add, ← Nat.pow_add,
      Nat.sub_add_cancel (by omega), Nat.sub_add_cancel (by omega)]
  rw [hadd, toNat_pack_round hpositive (by omega), Int.sub_add_cancel, Int.toNat_natCast, hunits]

/-- The sum of two finite doubles that are not negative is the double nearest to the sum of their
    units. -/
theorem add_eq_ofUnits {y : Float} (hx : isFinite x = true) (hy : isFinite y = true)
    (hxsign : isNegative x = false) (hysign : isNegative y = false) :
    x + y = ofUnits false (units x + units y) 1 := by
  obtain ⟨negative, m, c, hxshape⟩ := isFinite_iff.mp hx
  obtain ⟨negative', m', c', hyshape⟩ := isFinite_iff.mp hy
  obtain rfl : negative = false := by rwa [isNegative, hxshape] at hxsign
  obtain rfl : negative' = false := by rwa [isNegative, hyshape] at hysign
  refine eq_ofMagnitude ?_
  show (UnpackedFloat.pack .binary64
    (UnpackedFloat.add .binary64 x.toModel.unpack y.toModel.unpack)).toNat = _
  have hxunits : units x = m * 2 ^ c := by rw [units, hxshape]; rfl
  have hyunits : units y = m' * 2 ^ c' := by rw [units, hyshape]; rfl
  obtain ⟨hzero, hxmodel⟩ | ⟨hm, hxmodel⟩ := unpack_of_finite hxshape <;>
    obtain ⟨hzero', hymodel⟩ | ⟨hm', hymodel⟩ := unpack_of_finite hyshape
  · rw [hxmodel, hymodel, hxunits, hyunits, hzero, hzero', Nat.zero_mul, Nat.zero_mul]
    decide +kernel
  · have hsum : units x + units y = units y := by
      rw [hxunits, hzero, Nat.zero_mul, Nat.zero_add]
    rw [hxmodel, hymodel, hsum, (nearestBits_units hy).1]
    exact toNat_pack_of_shape hyshape hm'
  · have hsum : units x + units y = units x := by
      rw [hyunits, hzero', Nat.zero_mul, Nat.add_zero]
    rw [hxmodel, hymodel, hsum, (nearestBits_units hx).1]
    exact toNat_pack_of_shape hxshape hm
  · -- Both mantissas are brought to the smaller exponent, where they are added.
    rw [hxmodel, hymodel, hxunits, hyunits]
    exact toNat_pack_add hm hm'

end Double
end StackCalc
