/-
  StackCalc.Proofs.BaseNumerals

  Numerals in base two and base sixteen.  What is written for a natural number consists of the
  digits of the base, which neither the signs nor the marker of the base are taken for, so it is
  read as it stands and denotes the number (`read?_write`).  Every text that denotes a negative
  number has a minus sign in front of its digits (`read?_neg_iff`).
-/

import Mathlib
import StackCalc.Positional
import StackCalc.Proofs.Words

namespace StackCalc
namespace Base

open StackCalc.Text

variable {base : Base} {c : Char} {s t : List Char} {n m d : Nat} {afterDigit : Bool}

/-! ## Digits -/

theorem one_lt_radix (base : Base) : 1 < base.radix := by
  cases base <;> decide

/-- A number has a single digit, or the digits of a smaller one and another digit behind them. -/
theorem toDigits_cases {radix : Nat} (hradix : 1 < radix) (n : Nat) :
    (n < radix ∧ Nat.toDigits radix n = [Nat.digitChar n])
      ∨ ∃ q r, q < n ∧ r < radix ∧ q * radix + r = n
        ∧ Nat.toDigits radix n = Nat.toDigits radix q ++ [Nat.digitChar r] := by
  by_cases hsmall : n < radix
  · exact .inl ⟨hsmall, Nat.toDigits_of_lt_base hsmall⟩
  · have hlarge : radix ≤ n := Nat.le_of_not_lt hsmall
    have hless : n / radix < n := Nat.div_lt_self (by omega) hradix
    have hrest : n % radix < radix := Nat.mod_lt n (by omega)
    exact .inr ⟨n / radix, n % radix, hless, hrest, Nat.div_add_mod' n radix,
      Nat.toDigits_of_base_le hradix hlarge⟩

theorem exists_digitChar {radix : Nat} (hradix : 1 < radix) (h : c ∈ Nat.toDigits radix n) :
    ∃ d < radix, c = Nat.digitChar d := by
  induction n using Nat.strongRecOn with
  | ind n ih =>
    obtain ⟨hn, hdigits⟩ | ⟨q, r, hq, hr, -, hdigits⟩ := toDigits_cases hradix n
    · rw [hdigits, List.mem_singleton] at h
      exact ⟨n, hn, h⟩
    · rw [hdigits, List.mem_append, List.mem_singleton] at h
      obtain h | h := h
      · exact ih q hq h
      · exact ⟨r, hr, h⟩

theorem digit?_digitChar (h : d < base.radix) : base.digit? (Nat.digitChar d) = some d := by
  cases base with
  | binary =>
    have hbit : d < 2 := h
    interval_cases d <;> rfl
  | hexadecimal =>
    have hdigit : d < 16 := h
    interval_cases d <;> rfl

/-- A character that stands for itself and is no sign, no blank and no part of a marker. -/
structure IsPlain (base : Base) (c : Char) : Prop where
  narrowed : narrowed c = c
  padding : isPadding c = false
  underscore : c ≠ '_'
  minus : c ≠ '-'
  plus : c ≠ '+'
  marker : c.toLower ≠ base.marker

/-- The digits of the base are plain, and so are all decimal digits. -/
theorem isPlain_digitChar (h : d < max 10 base.radix) : base.IsPlain (Nat.digitChar d) := by
  cases base with
  | binary =>
    have hdigit : d < 10 := h
    interval_cases d <;> exact ⟨by decide, by decide, by decide, by decide, by decide, by decide⟩
  | hexadecimal =>
    have hdigit : d < 16 := h
    interval_cases d <;> exact ⟨by decide, by decide, by decide, by decide, by decide, by decide⟩

theorem isPlain_of_mem_write (h : c ∈ base.write n) : base.IsPlain c := by
  obtain ⟨d, hd, rfl⟩ := exists_digitChar base.one_lt_radix h
  exact isPlain_digitChar (lt_max_of_lt_right hd)

theorem isPlain_of_mem_toDigits (h : c ∈ Nat.toDigits 10 n) : base.IsPlain c := by
  obtain ⟨d, hd, rfl⟩ := exists_digitChar (by decide) h
  exact isPlain_digitChar (lt_max_of_lt_left hd)

/-! ## Reading what was written -/

theorem digits?_cons (h : c ≠ '_') (n : Nat) (afterDigit : Bool) (s : List Char) :
    base.digits? n afterDigit (c :: s)
      = (base.digit? c).bind fun d => base.digits? (n * base.radix + d) true s := by
  rw [digits?]
  exact h

/-- Digits are read on behind others, from the number that these denote. -/
theorem digits?_append (h : base.digits? n afterDigit s = some m) (t : List Char) :
    base.digits? n afterDigit (s ++ t) = base.digits? m true t := by
  induction s generalizing n afterDigit with
  | nil =>
    cases afterDigit with
    | true =>
      obtain rfl : n = m := Option.some.inj h
      rfl
    | false => cases h
  | cons c s ih =>
    by_cases hc : c = '_'
    · subst hc
      cases afterDigit with
      | true => exact ih h
      | false => cases h
    · rw [digits?_cons hc] at h
      rw [List.cons_append, digits?_cons hc]
      obtain ⟨d, hd, hrest⟩ := Option.bind_eq_some_iff.mp h
      rw [hd, Option.bind_some]
      exact ih hrest

/-- A written digit is read behind others. -/
theorem digits?_digitChar (h : d < base.radix) (n : Nat) (afterDigit : Bool) :
    base.digits? n afterDigit [Nat.digitChar d] = some (n * base.radix + d) := by
  have hplain : base.IsPlain (Nat.digitChar d) := isPlain_digitChar (lt_max_of_lt_right h)
  rw [digits?_cons hplain.underscore, digit?_digitChar h]
  rfl

/-- The digits of a number denote it. -/
theorem digits?_write (base : Base) (n : Nat) : base.digits? 0 false (base.write n) = some n := by
  induction n using Nat.strongRecOn with
  | ind n ih =>
    obtain ⟨hn, hdigits⟩ | ⟨q, r, hq, hr, hsum, hdigits⟩ := toDigits_cases base.one_lt_radix n
    · rw [write, hdigits, digits?_digitChar hn, Nat.zero_mul, Nat.zero_add]
    · have hquotient : base.digits? 0 false (Nat.toDigits base.radix q) = some q := ih q hq
      rw [write, hdigits, digits?_append hquotient, digits?_digitChar hr, hsum]

/-- No marker is taken away from digits. -/
theorem withoutMarker_eq (h : ∀ c ∈ s, base.IsPlain c) : base.withoutMarker s = s := by
  unfold withoutMarker
  split
  · rename_i letter rest
    have hletter := (h letter (by simp)).marker
    rw [if_neg hletter]
  · rfl

theorem dropMarker_eq (h : ∀ c ∈ s, base.IsPlain c) : base.dropMarker s = s := by
  unfold dropMarker
  split
  · rename_i letter rest
    have hletter := (h letter (by simp)).marker
    rw [if_neg hletter]
  · rfl

/-- Plain characters are read as they stand. -/
theorem trim_narrowed (h : ∀ c ∈ s, base.IsPlain c) : trim isPadding (s.map narrowed) = s := by
  rw [List.map_congr_left fun c hc => (h c hc).narrowed, List.map_id',
    trim_eq_self fun c hc => (h c hc).padding]

/-- What is written for a natural number is read as this number. -/
theorem read?_write (base : Base) (n : Nat) : base.read? (base.write n) = some (n : Int) := by
  have hplain : ∀ c ∈ base.write n, base.IsPlain c := fun c hc => isPlain_of_mem_write hc
  rw [read?, withoutMarker_eq hplain, integer?, trim_narrowed hplain]
  split
  · rename_i rest hwrite
    exact absurd rfl (hplain '-' (by rw [hwrite]; simp)).minus
  · rename_i rest hwrite
    exact absurd rfl (hplain '+' (by rw [hwrite]; simp)).plus
  · rw [dropMarker_eq hplain, digits?_write]
    rfl

/-! ## Signs -/

/-- Whether a text has a minus sign in front of its digits, behind blanks and behind a marker that
    stands at its start. -/
def isSigned (base : Base) (s : List Char) : Bool :=
  ((base.withoutMarker s).dropWhile isPadding).head? = some '-'

/-- Decimal digits are neither blanks nor minus signs. -/
theorem digitChar_solid (h : d < 10) :
    isPadding (Nat.digitChar d) = false ∧ Nat.digitChar d ≠ '-' := by
  interval_cases d <;> exact ⟨by decide, by decide⟩

/-- A character stands for itself, is a wide blank that stands for a blank, or is no blank and no
    minus sign and stands for something that is neither. -/
theorem narrowed_cases (c : Char) :
    narrowed c = c ∨ (isPadding c = true ∧ narrowed c = ' ')
      ∨ (isPadding c = false ∧ c ≠ '-') ∧ isPadding (narrowed c) = false ∧ narrowed c ≠ '-' := by
  unfold narrowed
  split
  · exact .inl rfl
  · rename_i hwide
    have hminus : c ≠ '-' := by
      rintro rfl
      exact hwide (by decide)
    split
    · rename_i hpadding
      exact .inr (.inl ⟨hpadding, rfl⟩)
    · rename_i hink
      have hsolid : isPadding c = false := by simpa using hink
      refine .inr (.inr ⟨⟨hsolid, hminus⟩, ?_⟩)
      split
      · rename_i d hd
        exact digitChar_solid (digitValue?_lt hd)
      · exact ⟨by decide, by decide⟩

theorem isPadding_narrowed (c : Char) : isPadding (narrowed c) = isPadding c := by
  obtain h | ⟨hpadding, h⟩ | ⟨⟨hink, -⟩, hink', -⟩ := narrowed_cases c
  · rw [h]
  · rw [h, hpadding]
    rfl
  · rw [hink, hink']

theorem narrowed_eq_minus_iff (c : Char) : narrowed c = '-' ↔ c = '-' := by
  obtain h | ⟨hpadding, h⟩ | ⟨⟨-, hminus⟩, -, hminus'⟩ := narrowed_cases c
  · rw [h]
  · have hblank : c ≠ '-' := by
      rintro rfl
      exact absurd hpadding (by decide)
    rw [h]
    exact ⟨nofun, fun hc => absurd hc hblank⟩
  · exact ⟨fun hc => absurd hc hminus', fun hc => absurd hc hminus⟩

/-- A text is signed if what is read of it begins with a minus sign. -/
theorem isSigned_iff : base.isSigned s = true
    ↔ (trim isPadding ((base.withoutMarker s).map narrowed)).head? = some '-' := by
  have hsame : isPadding ∘ narrowed = isPadding := funext isPadding_narrowed
  rw [head?_trim, List.dropWhile_map, hsame, List.head?_map, Option.map_eq_some_iff, isSigned,
    decide_eq_true_iff]
  constructor
  · intro h
    exact ⟨'-', h, rfl⟩
  · rintro ⟨c, hc, hminus⟩
    rw [hc, (narrowed_eq_minus_iff c).mp hminus]

/-- Plain characters have no sign in front of them. -/
theorem isSigned_of_isPlain (h : ∀ c ∈ s, base.IsPlain c) : base.isSigned s = false := by
  rw [← Bool.not_eq_true, isSigned_iff, withoutMarker_eq h, trim_narrowed h]
  intro hhead
  exact (h '-' (List.mem_of_head? hhead)).minus rfl

/-- A text denotes a negative number if it has a minus sign and does not denote zero. -/
theorem read?_neg_iff {k : Int} (h : base.read? s = some k) :
    k < 0 ↔ k ≠ 0 ∧ base.isSigned s = true := by
  rw [isSigned_iff]
  rw [read?, integer?] at h
  split at h
  · rename_i rest hminus
    obtain ⟨value, hvalue, rfl⟩ := Option.map_eq_some_iff.mp h
    obtain ⟨n, -, hn⟩ := Option.bind_eq_some_iff.mp hvalue
    obtain rfl : (n : Int) = value := Option.some.inj hn
    rw [hminus]
    constructor
    · intro hnegative
      exact ⟨Int.ne_of_lt hnegative, rfl⟩
    · rintro ⟨hne, -⟩
      omega
  · rename_i rest hplus
    obtain ⟨n, -, rfl⟩ := Option.map_eq_some_iff.mp h
    rw [hplus, List.head?_cons]
    simp
  · rename_i hminus hplus
    obtain ⟨n, -, rfl⟩ := Option.map_eq_some_iff.mp h
    have hnone : (trim isPadding ((base.withoutMarker s).map narrowed)).head? ≠ some '-' := by
      intro hhead
      obtain ⟨rest, hrest⟩ := List.head?_eq_some_iff.mp hhead
      exact hminus rest hrest
    simp [hnone]

end Base
end StackCalc
