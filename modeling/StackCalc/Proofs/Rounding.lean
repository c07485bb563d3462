/-
  StackCalc.Proofs.Rounding

  Rounding to a whole number.  Half is added to the magnitude of a double before its fraction is cut
  off, and what comes out depends on how the sum is rounded to a double in between.  From one half
  to 2 ^ 52 the sum is exact, or just above a power of two, where nothing is lost that matters;
  whole numbers of 53 bits lie in the middle of two doubles after the addition, and the odd ones go
  up; greater numbers stay as they are; and below one half the greatest double comes to one.  So
  the result is the nearest whole number, half away from zero, except for the doubles that are
  `Overshot` (`round_nearest_unless_overshot`).
-/

import StackCalc.Proofs.BaseConversions
import StackCalc.Proofs.Sums

namespace StackCalc
namespace Double

variable {x y : Float} {c d j k n p t u : Nat}

/-! ## Half a unit more -/

theorem roundHalfEven_mul_add (h : t < d) :
    roundHalfEven (c * d + t) d
      = if 2 * t < d then c else if d < 2 * t then c + 1 else if c % 2 = 0 then c else c + 1 := by
  have hquotient : (c * d + t) / d = c := by
    rw [Nat.add_comm, Nat.add_mul_div_right _ _ (by omega), Nat.div_eq_of_lt h, Nat.zero_add]
  have hrest : (c * d + t) % d = t := by
    rw [Nat.add_comm, Nat.add_mul_mod_self_right, Nat.mod_eq_of_lt h]
  rw [roundHalfEven, hquotient, hrest]

/-- Half a one is lost in a number of at least 54 bits. -/
theorem rounded_add_of_large (hu : 2 ^ excess u ∣ u) (hlarge : 2 ^ 53 * 2 ^ (p + 1) ≤ u) :
    excess (u + 2 ^ p) = excess u
      ∧ roundHalfEven (u + 2 ^ p) (2 ^ excess u) = roundHalfEven u (2 ^ excess u) := by
  obtain ⟨c, hc⟩ := hu
  obtain ⟨k, hk⟩ : ∃ k, k = excess u := ⟨_, rfl⟩
  rw [← hk, Nat.mul_comm] at hc
  have hone : 2 ^ (p + 1) = 2 ^ p * 2 := Nat.pow_succ ..
  have hpositive := Nat.two_pow_pos p
  have hbelow : u < 2 ^ 53 * 2 ^ k := hk ▸ lt_two_pow_excess u
  have habove : 2 ^ 52 * 2 ^ k ≤ u := hk ▸ two_pow_excess_le (by omega)
  have hbits : c < 2 ^ 53 := Nat.lt_of_mul_lt_mul_right (hc ▸ hbelow)
  have hroom : (c + 1) * 2 ^ k ≤ 2 ^ 53 * 2 ^ k := Nat.mul_le_mul_right _ hbits
  rw [Nat.add_mul] at hroom
  rw [← hk]
  refine ⟨excess_eq (by omega) (by omega), ?_⟩
  rw [hc, roundHalfEven_mul_add (by omega), if_pos (by omega),
    roundHalfEven_of_dvd (Nat.dvd_mul_left _ _) (by omega), Nat.mul_div_cancel _ (by omega)]

/-- What lies at most half of the divisor above a multiple has its quotient. -/
theorem div_mul_two_eq (hleast : c * (d * 2) ≤ n) (hmost : n ≤ c * (d * 2) + d) (hd : 0 < d) :
    n / (d * 2) = c :=
  Nat.div_eq_of_lt_le hleast (by rw [Nat.add_mul]; omega)

/-- So its whole part is the number without its fraction. -/
theorem nearestUnits_add_of_large (hu : 2 ^ excess u ∣ u) (hlarge : 2 ^ 53 * 2 ^ (p + 1) ≤ u) :
    nearestUnits (u + 2 ^ p) / 2 ^ (p + 1) = (u + 2 ^ p) / 2 ^ (p + 1) := by
  obtain ⟨hexcess, hrounded⟩ := rounded_add_of_large hu hlarge
  have hself : nearestUnits (u + 2 ^ p) = u := by
    rw [nearestUnits, hexcess, hrounded]
    exact nearestUnits_eq_self hu
  have hwide : 2 ^ (p + 1) < 2 ^ excess u := by
    have := lt_two_pow_excess u
    omega
  obtain ⟨q, hq⟩ : 2 ^ (p + 1) ∣ u :=
    (Nat.pow_dvd_pow 2 (Nat.le_of_lt ((Nat.pow_lt_pow_iff_right (by decide)).mp hwide))).trans hu
  rw [Nat.mul_comm, Nat.pow_succ] at hq
  have hpositive := Nat.two_pow_pos p
  rw [hself, Nat.pow_succ, div_mul_two_eq (c := q) (by omega) (by omega) hpositive,
    div_mul_two_eq (c := q) (by omega) (by omega) hpositive]

/-- A whole number of 53 bits and half a one lies between two doubles, and the even one is taken. -/
theorem nearestUnits_add_of_tie (hleast : 2 ^ 52 ≤ c) (hmost : c < 2 ^ 53) :
    nearestUnits (c * 2 ^ (p + 1) + 2 ^ p) = (c + c % 2) * 2 ^ (p + 1) := by
  have hone : 2 ^ (p + 1) = 2 ^ p * 2 := Nat.pow_succ ..
  have hpositive := Nat.two_pow_pos p
  have hleast' : 2 ^ 52 * 2 ^ (p + 1) ≤ c * 2 ^ (p + 1) := Nat.mul_le_mul_right _ hleast
  have hroom : (c + 1) * 2 ^ (p + 1) ≤ 2 ^ 53 * 2 ^ (p + 1) := Nat.mul_le_mul_right _ hmost
  rw [Nat.add_mul] at hroom
  have hexcess : excess (c * 2 ^ (p + 1) + 2 ^ p) = p + 1 := excess_eq (by omega) (by omega)
  rw [nearestUnits, hexcess, roundHalfEven_mul_add (by omega), if_neg (by omega), if_neg (by omega)]
  congr 1
  split_ifs <;> omega

theorem le_nearestUnits (h : c * 2 ^ excess n ≤ n) : c * 2 ^ excess n ≤ nearestUnits n :=
  Nat.mul_le_mul_right _ (le_roundHalfEven h (Nat.two_pow_pos _))

theorem nearestUnits_le (h : n ≤ c * 2 ^ excess n) : nearestUnits n ≤ c * 2 ^ excess n :=
  Nat.mul_le_mul_right _ (roundHalfEven_le h (Nat.two_pow_pos _))

/-- Between one half and 2 ^ 52 no whole number is reached by rounding. -/
theorem nearestUnits_add_div (hu : 2 ^ excess u ∣ u) (hp : 52 ≤ p) (hleast : 2 ^ p ≤ u)
    (hmost : u < 2 ^ 52 * 2 ^ (p + 1)) :
    nearestUnits (u + 2 ^ p) / 2 ^ (p + 1) = (u + 2 ^ p) / 2 ^ (p + 1) := by
  by_cases hexact : 2 ^ excess (u + 2 ^ p) ∣ u + 2 ^ p
  · rw [nearestUnits_eq_self hexact]
  -- The sum has one bit more than the number, so it is at most half a one above a power of two,
  -- and so is the nearest double.
  obtain ⟨k, hk⟩ : ∃ k, k = excess u := ⟨_, rfl⟩
  have hone : 2 ^ (p + 1) = 2 ^ p * 2 := Nat.pow_succ ..
  have hdouble : 2 ^ (k + 1) = 2 ^ k * 2 := Nat.pow_succ ..
  have hfull : 2 ^ 52 ≤ 2 ^ p := Nat.pow_le_pow_right (by decide) hp
  have hbelow : u < 2 ^ 53 * 2 ^ k := hk ▸ lt_two_pow_excess u
  have habove : 2 ^ 52 * 2 ^ k ≤ u := hk ▸ two_pow_excess_le (by omega)
  have hkp : k < p + 1 := (Nat.pow_lt_pow_iff_right (by decide)).mp (by omega : 2 ^ k < 2 ^ (p + 1))
  have hdvd : 2 ^ k ∣ u + 2 ^ p := (hk ▸ hu).add (Nat.pow_dvd_pow 2 (by omega))
  have hcarry : 2 ^ 52 * 2 ^ (k + 1) ≤ u + 2 ^ p := by
    by_contra hless
    rw [excess_eq (k := k) (by omega) (by omega)] at hexact
    exact hexact hdvd
  have hnext : excess (u + 2 ^ p) = k + 1 := excess_eq hcarry (by omega)
  rw [hnext] at hexact
  have hless : k < p := by
    by_contra hlast
    obtain rfl : k = p := by omega
    have hmost : u + 2 ^ k ≤ 2 ^ 53 * 2 ^ k :=
      Nat.le_of_lt_add_of_dvd (by omega) hdvd (Nat.dvd_mul_left _ _)
    exact hexact ⟨2 ^ 52, by omega⟩
  obtain ⟨q, hq⟩ : ∃ q, 2 ^ 52 * 2 ^ (k + 1) = q * (2 ^ p * 2) := by
    have hwidth : p < 53 + k := by
      rw [← Nat.pow_add] at hbelow
      exact (Nat.pow_lt_pow_iff_right (by decide)).mp (Nat.lt_of_le_of_lt hleast hbelow)
    refine ⟨2 ^ (52 + k - p), ?_⟩
    rw [← hone, ← Nat.pow_add, ← Nat.pow_add, (by omega : 52 + k - p + (p + 1) = 52 + (k + 1))]
  have hroom : 2 ^ 52 * 2 ^ (k + 1) + 2 ^ p = (2 ^ 52 + 2 ^ (p - (k + 1))) * 2 ^ (k + 1) := by
    rw [Nat.add_mul, ← Nat.pow_add _ (p - (k + 1)), Nat.sub_add_cancel hless]
  have hlower : 2 ^ 52 * 2 ^ (k + 1) ≤ nearestUnits (u + 2 ^ p) := by
    have := le_nearestUnits (c := 2 ^ 52) (n := u + 2 ^ p) (by rwa [hnext])
    rwa [hnext] at this
  have hupper : nearestUnits (u + 2 ^ p) ≤ 2 ^ 52 * 2 ^ (k + 1) + 2 ^ p := by
    have := nearestUnits_le (c := 2 ^ 52 + 2 ^ (p - (k + 1))) (n := u + 2 ^ p)
      (by rw [hnext, ← hroom]; omega)
    rwa [hnext, ← hroom] at this
  rw [hone, div_mul_two_eq (c := q) (by omega) (by omega) (by omega),
    div_mul_two_eq (c := q) (by omega) (by omega) (by omega)]

/-- Of the numbers below one half only the greatest comes to one. -/
theorem nearestUnits_add_of_small (hu : 2 ^ excess u ∣ u) (hp : p = j + 53) (hsmall : u < 2 ^ p) :
    nearestUnits (u + 2 ^ p) / 2 ^ (p + 1) = if u + 2 ^ j = 2 ^ p then 1 else 0 := by
  have hpositive := Nat.two_pow_pos j
  have hdouble : 2 ^ (j + 1) = 2 ^ j * 2 := Nat.pow_succ ..
  have hhalf : 2 ^ p = 2 ^ 52 * 2 ^ (j + 1) := by
    rw [← Nat.pow_add, hp, (by omega : 52 + (j + 1) = j + 53)]
  have hone : 2 ^ (p + 1) = 2 ^ p * 2 := Nat.pow_succ ..
  have hexcess : excess (u + 2 ^ p) = j + 1 := excess_eq (by omega) (by omega)
  split_ifs with hgreatest
  · have hodd : u + 2 ^ p = (2 ^ 53 - 1) * 2 ^ (j + 1) + 2 ^ j := by omega
    have hcarry : nearestUnits (u + 2 ^ p) = 2 ^ (p + 1) := by
      rw [hodd, nearestUnits_add_of_tie (by decide) (by decide)]
      omega
    rw [hcarry]
    exact Nat.div_self (Nat.two_pow_pos _)
  · have hless : u ≤ (2 ^ 53 - 2) * 2 ^ j := by
      by_contra hmore
      have hexcess' : excess u = j := excess_eq (by omega) (by omega)
      rw [hexcess'] at hu
      have hmost : u ≤ (2 ^ 53 - 1) * 2 ^ j :=
        Nat.le_of_lt_add_of_dvd (by omega) hu (Nat.dvd_mul_left _ _)
      have hleast : (2 ^ 53 - 1) * 2 ^ j ≤ u :=
        Nat.le_of_lt_add_of_dvd (by omega) (Nat.dvd_mul_left _ _) hu
      omega
    have hbound := nearestUnits_le (c := 2 ^ 53 - 1) (n := u + 2 ^ p) (by
      rw [hexcess]
      omega)
    rw [hexcess] at hbound
    exact Nat.div_eq_of_lt (by omega)

/-! ## Rounding to a whole number -/

/-- How many units one half is. -/
def half : Nat := Nat.pow 2 1073

/-- A whole number is nearest to the magnitude of a double if none is nearer; of two that are
    nearest it is the one away from zero. -/
def IsNearest (x : Float) (n : Nat) : Prop :=
  ∀ m, Nat.dist (units x) (n * one) ≤ Nat.dist (units x) (m * one)
    ∧ (Nat.dist (units x) (m * one) = Nat.dist (units x) (n * one) → m ≤ n)

/-- How far the greatest double below one half is from it. -/
def gapBelowHalf : Nat := Nat.pow 2 1020

/-- The doubles whose rounding goes one too far: the greatest one below one half, and the odd
    whole numbers of 53 bits. -/
def Overshot (x : Float) : Prop :=
  units x + gapBelowHalf = half ∨ ∃ n, units x = n * one ∧ n % 2 = 1 ∧ 2 ^ 52 ≤ n ∧ n < 2 ^ 53

theorem one_eq_half : one = half * 2 := by decide +kernel

theorem half_pos : 0 < half := by decide +kernel

theorem exists_powers :
    ∃ j p, p = j + 53 ∧ p < 2000 ∧ half = 2 ^ p ∧ one = 2 ^ (p + 1) ∧ gapBelowHalf = 2 ^ j :=
  ⟨1020, 1073, by decide, by decide, by decide +kernel, by decide +kernel, by decide +kernel⟩

/-- The whole number nearest to a magnitude is the magnitude and one half, without the fraction. -/
theorem isNearest_iff : IsNearest x n ↔ n = (units x + half) / one := by
  obtain ⟨q, hq⟩ : ∃ q, q = (units x + half) / one := ⟨_, rfl⟩
  have hone := one_eq_half
  have hhalf := half_pos
  have hleast : q * one ≤ units x + half := hq ▸ Nat.div_mul_le_self _ _
  have hmost : units x + half < q * one + one := by
    rw [hq]
    exact Nat.lt_div_mul_add (by omega)
  have hnearest : IsNearest x q := by
    intro m
    simp only [Nat.dist]
    rcases Nat.lt_trichotomy m q with hless | rfl | hmore
    · have hstep : (m + 1) * one ≤ q * one := Nat.mul_le_mul_right _ hless
      rw [Nat.succ_mul] at hstep
      omega
    · omega
    · have hstep : (q + 1) * one ≤ m * one := Nat.mul_le_mul_right _ hmore
      rw [Nat.succ_mul] at hstep
      omega
  rw [← hq]
  constructor
  · intro h
    have hsame : Nat.dist (units x) (n * one) = Nat.dist (units x) (q * one) :=
      Nat.le_antisymm (h q).1 (hnearest n).1
    exact Nat.le_antisymm ((hnearest n).2 hsame) ((h q).2 hsame.symm)
  · rintro rfl
    exact hnearest

/-- Below one half it is the last bit that makes a number overshot. -/
theorem overshot_iff_of_lt_half (h : units x < half) :
    Overshot x ↔ units x + gapBelowHalf = half := by
  refine ⟨?_, .inl⟩
  rintro (hlast | ⟨n, hn, -, hleast, -⟩)
  · exact hlast
  · have hmany : 2 ^ 52 * one ≤ n * one := Nat.mul_le_mul_right _ hleast
    have := one_eq_half
    omega

/-- From one half on it is that a number is odd and has 53 bits. -/
theorem overshot_iff_of_half_le (h : half ≤ units x) :
    Overshot x ↔ ∃ n, units x = n * one ∧ n % 2 = 1 ∧ 2 ^ 52 ≤ n ∧ n < 2 ^ 53 := by
  refine ⟨?_, .inr⟩
  rintro (hlast | hodd)
  · have : 0 < gapBelowHalf := by decide +kernel
    omega
  · exact hodd

/-- What the whole part of a magnitude and one half is after the sum has been rounded. -/
theorem nearestUnits_add_half (hx : isFinite x = true) :
    (Overshot x ∧ nearestUnits (units x + half) / one = (units x + half) / one + 1)
      ∨ ¬Overshot x ∧ nearestUnits (units x + half) / one = (units x + half) / one := by
  obtain ⟨j, p, hj, -, hhalf, hone, hlast⟩ := exists_powers
  have hu := two_pow_excess_dvd_units hx
  have hdouble := one_eq_half
  have hpositive := half_pos
  rcases Nat.lt_or_ge (units x) half with hsmall | hleast
  · have hnothing : (units x + half) / one = 0 := Nat.div_eq_of_lt (by omega)
    have hsum := nearestUnits_add_of_small hu hj (hhalf ▸ hsmall)
    rw [← hhalf, ← hone, ← hlast] at hsum
    rw [overshot_iff_of_lt_half hsmall, hnothing, hsum]
    split_ifs with hgreatest
    · exact .inl ⟨hgreatest, rfl⟩
    · exact .inr ⟨hgreatest, rfl⟩
  rw [overshot_iff_of_half_le hleast]
  rcases Nat.lt_or_ge (units x) (2 ^ 52 * one) with hmiddle | hfull
  · refine .inr ⟨?_, ?_⟩
    · rintro ⟨n, hn, -, hmany, -⟩
      have := Nat.mul_le_mul_right one hmany
      omega
    · rw [hhalf, hone]
      exact nearestUnits_add_div hu (by omega) (hhalf ▸ hleast) (hone ▸ hmiddle)
  rcases Nat.lt_or_ge (units x) (2 ^ 53 * one) with htie | hlarge
  · obtain ⟨c, hc⟩ : ∃ c, units x = c * one := by
      rw [hone] at hfull htie ⊢
      rw [excess_eq hfull htie] at hu
      exact hu.imp fun _ hc => by rw [hc, Nat.mul_comm]
    have hleast' : 2 ^ 52 ≤ c := Nat.le_of_mul_le_mul_right (hc ▸ hfull) (by omega)
    have hmost' : c < 2 ^ 53 := Nat.lt_of_mul_lt_mul_right (hc ▸ htie)
    have hquotient : (c * one + half) / one = c := by
      rw [hdouble]
      exact div_mul_two_eq (Nat.le_add_right _ _) (Nat.le_refl _) hpositive
    have hsum := nearestUnits_add_of_tie (p := p) hleast' hmost'
    rw [← hhalf, ← hone] at hsum
    have hodd : (∃ n, units x = n * one ∧ n % 2 = 1 ∧ 2 ^ 52 ≤ n ∧ n < 2 ^ 53) ↔ c % 2 = 1 := by
      constructor
      · rintro ⟨n, hn, hn', -, -⟩
        rwa [Nat.eq_of_mul_eq_mul_right (by omega) (hc.symm.trans hn)]
      · exact fun h => ⟨c, hc, h, hleast', hmost'⟩
    rw [hodd, hc, hsum, hquotient, Nat.mul_div_cancel _ (by omega)]
    omega
  · refine .inr ⟨?_, ?_⟩
    · rintro ⟨n, hn, -, -, hfew⟩
      have := Nat.mul_lt_mul_of_pos_right hfew (by omega : 0 < one)
      omega
    · rw [hhalf, hone]
      exact nearestUnits_add_of_large hu (hone ▸ hlarge)

/-! ## The steps of rounding -/

/-- Half a one more does not make a double infinite. -/
theorem nearestBits_add_half (h : isFinite x = true) :
    nearestBits (units x + half) 1 < infinityBits := by
  obtain ⟨-, p, -, hp, hhalf, hone, -⟩ := exists_powers
  rcases Nat.lt_or_ge (units x) (2 ^ 53 * one) with hfew | hlarge
  · have hdouble := one_eq_half
    have hpositive := half_pos
    have htwo : 2 ^ (p + 2) = one * 2 := by rw [hone, Nat.pow_succ]
    have hexcess : excess (units x + half) ≤ p + 2 := excess_le (by omega)
    exact nearestBits_lt (by omega)
  · obtain ⟨hexcess, hrounded⟩ :=
      rounded_add_of_large (two_pow_excess_dvd_units h) (hone ▸ hlarge)
    obtain ⟨hbits, hbelow⟩ := nearestBits_units h
    rw [hhalf, nearestBits_one, hexcess, hrounded, ← nearestBits_one, hbits]
    exact hbelow

/-- Without its fraction a finite double is still a double. -/
theorem truncated_units (h : isFinite y = true) :
    isFinite (truncated y) = true ∧ units (truncated y) = wholePart y * one := by
  obtain ⟨-, p, -, -, -, hone, -⟩ := exists_powers
  obtain ⟨hbits, hbelow⟩ := nearestBits_units h
  have hle : wholePart y * one ≤ units y := Nat.div_mul_le_self _ _
  have hdvd : 2 ^ excess (units y) ∣ wholePart y * one := by
    have hu := two_pow_excess_dvd_units h
    rcases Nat.le_total (excess (units y)) (p + 1) with hsmall | hlarge
    · rw [hone]
      exact Nat.dvd_mul_left_of_dvd (Nat.pow_dvd_pow 2 hsmall) _
    · have hwhole : one ∣ units y := by
        rw [hone]
        exact (Nat.pow_dvd_pow 2 hlarge).trans hu
      rw [wholePart, Nat.div_mul_cancel hwhole]
      exact hu
  have hself : nearestUnits (wholePart y * one) = wholePart y * one :=
    nearestUnits_eq_self ((Nat.pow_dvd_pow 2
      (excess_le (Nat.lt_of_le_of_lt hle (lt_two_pow_excess _)))).trans hdvd)
  have hresult := finite_ofUnits (isNegative y)
    (Nat.lt_of_le_of_lt (nearestBits_mono hle) (hbits ▸ hbelow))
  rw [hself] at hresult
  exact ⟨hresult.1, hresult.2.2⟩

/-- A finite double without a sign and one half more has the rounded whole part. -/
theorem abs_add_half (h : isFinite x = true) :
    isFinite (x.abs + 0.5) = true
      ∧ wholePart (x.abs + 0.5) = nearestUnits (units x + half) / one := by
  have hhalf : isFinite 0.5 = true ∧ isNegative 0.5 = false ∧ units 0.5 = half := by
    decide +kernel
  obtain ⟨hfinite, hsign, hunits⟩ := finite_unsigned h
  have hsum := finite_ofUnits false (nearestBits_add_half h)
  rw [abs_eq_unsigned h, add_eq_ofUnits hfinite hhalf.1 hsign hhalf.2.1, hunits, hhalf.2.2,
    wholePart, hsum.2.2]
  exact ⟨hsum.1, rfl⟩

/-- A rounded finite double is a whole number with the sign of the double. -/
theorem round_units (h : isFinite x = true) :
    isFinite (round x) = true ∧ isNegative (round x) = isNegative x
      ∧ units (round x) = nearestUnits (units x + half) / one * one := by
  obtain ⟨hfinite, hwhole⟩ := abs_add_half h
  obtain ⟨htruncated, hunits⟩ := truncated_units hfinite
  have hbelow := (nearestBits_units htruncated).2
  rw [round, if_pos h, withSignOf, ← hwhole, ← hunits, units_eq htruncated]
  exact ⟨isFinite_ofMagnitude _ hbelow, isNegative_ofMagnitude _ hbelow,
    units_ofMagnitude _ hbelow⟩

/-- The number nearest to a whole number is this number. -/
theorem wholePart_eq_of_isNearest (hx : isWhole x = true) (hn : IsNearest x n) :
    wholePart x = n := by
  have hhalf := half_pos
  rw [isNearest_iff.mp hn, (isWhole_iff.mp hx).2, one_eq_half]
  exact (div_mul_two_eq (Nat.le_add_right _ _) (Nat.le_refl _) hhalf).symm

end Double

open Builtin Double

/-- The operation is the rounding of doubles. -/
theorem gives_round (x : Float) : Gives "round" (.number x) (.number (Double.round x)) := by
  have hfind : Table.find? "round" functions
      = some (.native (Native.unary (total Double.round))) := rfl
  exact gives_of_body hfind rfl rfl rfl

/-- Rounding gives a whole number with the sign of the number, the nearest one with half going away
    from zero unless the number is overshot: half is added to the magnitude before the fraction is
    cut off, and for the greatest double below one half and the odd numbers between 2 ^ 52 and
    2 ^ 53 the sum is rounded up to the next whole number.  So the whole numbers that are not given
    back are the overshot ones. -/
theorem round_nearest_unless_overshot (x : Float) (hx : isFinite x = true) :
    ∃ y n, Gives "round" (.number x) (.number y) ∧ isWhole y = true
      ∧ isNegative y = isNegative x ∧ IsNearest x n
      ∧ (Overshot x ∧ wholePart y = n + 1 ∨ ¬Overshot x ∧ wholePart y = n)
      ∧ (isWhole x = true → (y = x ↔ ¬Overshot x)) := by
  obtain ⟨hfinite, hsign, hunits⟩ := round_units hx
  have hnearest : IsNearest x ((units x + half) / one) := isNearest_iff.mpr rfl
  have hpart : wholePart (Double.round x) = nearestUnits (units x + half) / one := by
    rw [wholePart, hunits, Nat.mul_div_cancel _ (by decide +kernel)]
  have hwhole : isWhole (Double.round x) = true := isWhole_iff.mpr ⟨hfinite, by rw [hunits, hpart]⟩
  have hcases := nearestUnits_add_half hx
  rw [← hpart] at hcases
  refine ⟨_, _, gives_round x, hwhole, hsign, hnearest, hcases, fun h => ?_⟩
  have hself := wholePart_eq_of_isNearest h hnearest
  rcases hcases with ⟨hovershot, hmore⟩ | ⟨hnot, hsame⟩
  · refine ⟨fun heq => ?_, fun hnot => absurd hovershot hnot⟩
    rw [heq] at hmore
    omega
  · refine ⟨fun _ => hnot, fun _ => eq_of_units hfinite hx hsign ?_⟩
    rw [(isWhole_iff.mp hwhole).2, (isWhole_iff.mp h).2, hsame, hself]

/-- The least odd number that needs 53 bits. -/
theorem round_nearest_unless_overshot_odd :
    isFinite 4503599627370497 = true
      ∧ ∃ y n, Gives "round" (.number 4503599627370497) (.number y) ∧ isWhole y = true
        ∧ isNegative y = isNegative 4503599627370497 ∧ IsNearest 4503599627370497 n
        ∧ (Overshot 4503599627370497 ∧ wholePart y = n + 1
          ∨ ¬Overshot 4503599627370497 ∧ wholePart y = n)
        ∧ (isWhole 4503599627370497 = true → (y = 4503599627370497 ↔ ¬Overshot 4503599627370497)) :=
  ⟨by decide +kernel, round_nearest_unless_overshot 4503599627370497 (by decide +kernel)⟩

/-- The greatest double below one half is rounded to one, although zero is nearer. -/
theorem round_not_always_nearest :
    ¬∀ x, isFinite x = true → ∃ y n, Gives "round" (.number x) (.number y)
      ∧ isNegative y = isNegative x ∧ IsNearest x n ∧ wholePart y = n := by
  intro h
  obtain ⟨y, n, hy, -, hn, hpart⟩ := h 0.49999999999999994 (by decide +kernel)
  have hsame := (gives_round 0.49999999999999994).unique hy
  obtain rfl := Cell.number.inj hsame
  have hone : wholePart (Double.round 0.49999999999999994) = 1 := by decide +kernel
  have hzero : (units 0.49999999999999994 + half) / one = 0 := by decide +kernel
  rw [isNearest_iff.mp hn, hone, hzero] at hpart
  cases hpart

end StackCalc
