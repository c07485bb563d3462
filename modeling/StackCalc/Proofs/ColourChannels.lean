/-
  StackCalc.Proofs.ColourChannels

  The conversions between colours and their three channels.  A channel is read from two characters,
  and the texts of two characters that denote a number are all of five kinds (`Channel`): two
  digits, one digit and a blank, or one digit behind a sign.  So a colour that is accepted has
  channels between -15 and 255.  The conversion back fails for negative channels and writes all
  others with two digits each; it gives the characters of the text, in lower case, exactly if they
  were hexadecimal digits all along (`colours_given_back_of_digits`).
-/

import StackCalc.Proofs.BaseConversions
import StackCalc.Proofs.NearestDoubles

namespace StackCalc
namespace Base

open StackCalc.Text

variable {a b c : Char} {d e : Nat} {n : Int}

/-! ## Hexadecimal digits -/

theorem toNat_digitChar (h : d < 16) :
    (Nat.digitChar d).toNat = if d < 10 then 48 + d else 87 + d := by
  interval_cases d <;> rfl

/-- A character is a digit of base sixteen if its lower case is what is written for the value. -/
theorem digit?_hexadecimal_iff :
    hexadecimal.digit? c = some d ↔ d < 16 ∧ c.toLower = Nat.digitChar d := by
  constructor
  · intro h
    simp only [digit?, radix, Bool.and_eq_true, decide_eq_true_eq, Option.ite_none_right_eq_some,
      Option.some.injEq] at h
    obtain ⟨hd, rfl⟩ := h
    refine ⟨hd, Char.toNat_inj.mp ?_⟩
    rw [toNat_digitChar hd]
    split_ifs at hd ⊢ <;> omega
  · rintro ⟨hd, hc⟩
    rw [digit?, hc]
    interval_cases d <;> rfl

theorem toLower_of_isPadding (h : isPadding c = true) : c.toLower = c := by
  have hletter : ¬(65 ≤ c.toNat ∧ c.toNat ≤ 90) := by
    simp only [isPadding, isWideBlank, Bool.or_eq_true, Bool.and_eq_true, decide_eq_true_eq] at h
    omega
  rw [Char.toLower, dif_neg]
  exact hletter

/-- The value of a hexadecimal digit; a decimal one may be of any script. -/
def scriptDigit? (c : Char) : Option Nat := hexadecimal.digit? (narrowed c)

theorem scriptDigit?_of_isPadding (h : isPadding c = true) : scriptDigit? c = none := by
  rw [← isPadding_narrowed] at h
  rw [scriptDigit?, Option.eq_none_iff_forall_ne_some]
  intro d hd
  obtain ⟨hless, hdigit⟩ := digit?_hexadecimal_iff.mp hd
  have hplain : hexadecimal.IsPlain (Nat.digitChar d) :=
    isPlain_digitChar (lt_max_of_lt_right hless)
  rw [toLower_of_isPadding h] at hdigit
  rw [hdigit, hplain.padding] at h
  cases h

theorem scriptDigit?_lt (h : scriptDigit? c = some d) : d < 16 :=
  (digit?_hexadecimal_iff.mp h).1

/-- A digit is no blank and does not stand for a sign. -/
theorem scriptDigit?_solid (h : scriptDigit? c = some d) :
    isPadding c = false ∧ narrowed c ≠ '-' ∧ narrowed c ≠ '+' := by
  refine ⟨?_, ?_, ?_⟩
  · by_contra hpadding
    rw [scriptDigit?_of_isPadding (by simpa using hpadding)] at h
    cases h
  · intro hminus
    rw [scriptDigit?, hminus] at h
    cases h
  · intro hplus
    rw [scriptDigit?, hplus] at h
    cases h

/-! ## Numerals of two characters -/

/-- What a channel of two characters denotes: two digits a number of two digits, and one digit its
    value if the other character is a blank, or a sign in front of it. -/
inductive Channel : Char → Char → Int → Prop where
  | digits {a b : Char} {d e : Nat} (ha : scriptDigit? a = some d) (hb : scriptDigit? b = some e) :
    Channel a b (16 * d + e : Nat)
  | behindBlank {a b : Char} {d : Nat} (ha : isPadding a = true) (hb : scriptDigit? b = some d) :
    Channel a b d
  | beforeBlank {a b : Char} {d : Nat} (ha : scriptDigit? a = some d) (hb : isPadding b = true) :
    Channel a b d
  | plus {b : Char} {d : Nat} (hb : scriptDigit? b = some d) : Channel '+' b d
  | minus {b : Char} {d : Nat} (hb : scriptDigit? b = some d) : Channel '-' b (-d)

theorem Channel.bounds (h : Channel a b n) : -15 ≤ n ∧ n ≤ 255 := by
  cases h with
  | digits ha hb =>
    have hd := scriptDigit?_lt ha
    have he := scriptDigit?_lt hb
    omega
  | behindBlank ha hb =>
    have hd := scriptDigit?_lt hb
    omega
  | beforeBlank ha hb =>
    have hd := scriptDigit?_lt ha
    omega
  | plus hb =>
    have hd := scriptDigit?_lt hb
    omega
  | minus hb =>
    have hd := scriptDigit?_lt hb
    omega

/-- A single character is no marker, and an underscore no digit. -/
theorem digits?_one (c : Char) :
    hexadecimal.digits? 0 false (hexadecimal.dropMarker [c]) = hexadecimal.digit? c := by
  have hmarker : hexadecimal.dropMarker [c] = [c] := by
    unfold dropMarker
    split
    · rename_i heq
      cases heq
    · rfl
  rw [hmarker]
  by_cases hc : c = '_'
  · subst hc
    rfl
  · rw [digits?_cons hc]
    cases hexadecimal.digit? c with
    | none => rfl
    | some d => simp [digits?]

theorem digit?_of_marker (h : c.toLower = hexadecimal.marker) : hexadecimal.digit? c = none := by
  rw [digit?, h]
  rfl

/-- Nothing is read of a marker without digits, nor of the marker as digits. -/
theorem digits?_two (a b : Char) :
    hexadecimal.digits? 0 false (hexadecimal.dropMarker [a, b])
      = (hexadecimal.digit? a).bind fun d => (hexadecimal.digit? b).map (16 * d + ·) := by
  by_cases hmarker : a = '0' ∧ b.toLower = hexadecimal.marker
  · obtain ⟨rfl, hb⟩ := hmarker
    have hdrop : hexadecimal.dropMarker ['0', b] = [] := by
      simp [dropMarker, hb]
    rw [hdrop, digit?_of_marker hb]
    rfl
  · have hdrop : hexadecimal.dropMarker [a, b] = [a, b] := by
      unfold dropMarker
      split
      · rename_i letter rest heq
        cases heq
        exact if_neg fun hletter => hmarker ⟨rfl, hletter⟩
      · rfl
    rw [hdrop]
    by_cases ha : a = '_'
    · subst ha
      rfl
    · rw [digits?_cons ha]
      cases hexadecimal.digit? a with
      | none => rfl
      | some d =>
        rw [Option.bind_some, Option.bind_some]
        by_cases hb : b = '_'
        · subst hb
          rfl
        · rw [digits?_cons hb]
          cases hexadecimal.digit? b with
          | none => rfl
          | some e => simp [digits?, radix, Nat.mul_comm]

/-- The integer that digits denote behind a sign, or without one. -/
def signed? (s : List Char) : Option Int :=
  match s with
  | '-' :: rest =>
    (hexadecimal.digits? 0 false (hexadecimal.dropMarker rest)).map fun n => -(n : Int)
  | '+' :: rest => (hexadecimal.digits? 0 false (hexadecimal.dropMarker rest)).map (Int.ofNat ·)
  | rest => (hexadecimal.digits? 0 false (hexadecimal.dropMarker rest)).map (Int.ofNat ·)

theorem integer?_eq_signed? (s : List Char) :
    hexadecimal.integer? s = signed? (trim isPadding (s.map narrowed)) := rfl

/-- A sign alone denotes nothing, and neither is it a digit. -/
theorem signed?_one (c : Char) : signed? [c] = (hexadecimal.digit? c).map (Int.ofNat ·) := by
  unfold signed?
  split
  · rename_i heq
    cases heq
    rfl
  · rename_i heq
    cases heq
    rfl
  · rw [digits?_one]

theorem signed?_minus (b : Char) :
    signed? ['-', b] = (hexadecimal.digit? b).map (-Int.ofNat ·) := by
  rw [signed?, digits?_one]
  cases hexadecimal.digit? b <;> rfl

theorem signed?_plus (b : Char) : signed? ['+', b] = (hexadecimal.digit? b).map (Int.ofNat ·) := by
  rw [signed?, digits?_one]

theorem signed?_two (hminus : a ≠ '-') (hplus : a ≠ '+') : signed? [a, b]
    = (hexadecimal.digit? a).bind fun d =>
      (hexadecimal.digit? b).map fun e => Int.ofNat (16 * d + e) := by
  unfold signed?
  split
  · rename_i heq
    cases heq
    exact absurd rfl hminus
  · rename_i heq
    cases heq
    exact absurd rfl hplus
  · rw [digits?_two]
    cases hexadecimal.digit? a with
    | none => rfl
    | some d => cases hexadecimal.digit? b <;> rfl

theorem narrowed_eq_plus_iff (c : Char) : narrowed c = '+' ↔ c = '+' := by
  unfold narrowed
  split
  · exact Iff.rfl
  · rename_i hwide
    have hplus : c ≠ '+' := by
      rintro rfl
      exact hwide (by decide)
    refine ⟨fun h => ?_, fun h => absurd h hplus⟩
    split at h
    · cases h
    · split at h
      · rename_i d hd
        have hless : d < max 10 hexadecimal.radix := lt_max_of_lt_left (digitValue?_lt hd)
        exact absurd h (isPlain_digitChar hless).plus
      · cases h

theorem integer?_of_solid (ha : isPadding a = false) (hb : isPadding b = false) :
    hexadecimal.integer? [a, b] = signed? [narrowed a, narrowed b] := by
  rw [integer?_eq_signed?]
  simp [trim, isPadding_narrowed, ha, hb]

theorem integer?_behindBlank (ha : isPadding a = true) (hb : isPadding b = false) :
    hexadecimal.integer? [a, b] = (scriptDigit? b).map (Int.ofNat ·) := by
  rw [integer?_eq_signed?, scriptDigit?, ← signed?_one]
  simp [trim, isPadding_narrowed, ha, hb]

theorem integer?_beforeBlank (ha : isPadding a = false) (hb : isPadding b = true) :
    hexadecimal.integer? [a, b] = (scriptDigit? a).map (Int.ofNat ·) := by
  rw [integer?_eq_signed?, scriptDigit?, ← signed?_one]
  simp [trim, isPadding_narrowed, ha, hb]

theorem integer?_blank (ha : isPadding a = true) (hb : isPadding b = true) :
    hexadecimal.integer? [a, b] = none := by
  rw [integer?_eq_signed?]
  simp only [trim, List.map, List.dropWhile, isPadding_narrowed, ha, hb]
  rfl

/-- A channel is read as the integer that it denotes. -/
theorem integer?_of_channel (h : Channel a b n) : hexadecimal.integer? [a, b] = some n := by
  cases h with
  | digits ha hb =>
    obtain ⟨hpa, hminus, hplus⟩ := scriptDigit?_solid ha
    rw [integer?_of_solid hpa (scriptDigit?_solid hb).1, signed?_two hminus hplus]
    rw [scriptDigit?] at ha hb
    rw [ha, hb]
    rfl
  | behindBlank ha hb =>
    rw [integer?_behindBlank ha (scriptDigit?_solid hb).1, hb]
    rfl
  | beforeBlank ha hb =>
    rw [integer?_beforeBlank (scriptDigit?_solid ha).1 hb, ha]
    rfl
  | plus hb =>
    rw [integer?_of_solid rfl (scriptDigit?_solid hb).1]
    rw [scriptDigit?] at hb
    exact (signed?_plus _).trans (by rw [hb]; rfl)
  | minus hb =>
    rw [integer?_of_solid rfl (scriptDigit?_solid hb).1]
    rw [scriptDigit?] at hb
    exact (signed?_minus _).trans (by rw [hb]; rfl)

/-- The texts of two characters that denote an integer, where no marker has been taken away. -/
theorem integer?_two : hexadecimal.integer? [a, b] = some n ↔ Channel a b n := by
  refine ⟨fun h => ?_, integer?_of_channel⟩
  cases ha : isPadding a with
  | true =>
    cases hb : isPadding b with
    | true =>
      rw [integer?_blank ha hb] at h
      cases h
    | false =>
      rw [integer?_behindBlank ha hb] at h
      obtain ⟨d, hd, rfl⟩ := Option.map_eq_some_iff.mp h
      exact .behindBlank ha hd
  | false =>
    cases hb : isPadding b with
    | true =>
      rw [integer?_beforeBlank ha hb] at h
      obtain ⟨d, hd, rfl⟩ := Option.map_eq_some_iff.mp h
      exact .beforeBlank hd hb
    | false =>
      rw [integer?_of_solid ha hb] at h
      by_cases hminus : narrowed a = '-'
      · obtain rfl := (narrowed_eq_minus_iff a).mp hminus
        rw [hminus, signed?_minus] at h
        obtain ⟨d, hd, rfl⟩ := Option.map_eq_some_iff.mp h
        exact .minus hd
      by_cases hplus : narrowed a = '+'
      · obtain rfl := (narrowed_eq_plus_iff a).mp hplus
        rw [hplus, signed?_plus] at h
        obtain ⟨d, hd, rfl⟩ := Option.map_eq_some_iff.mp h
        exact .plus hd
      rw [signed?_two hminus hplus] at h
      obtain ⟨d, hd, h⟩ := Option.bind_eq_some_iff.mp h
      obtain ⟨e, he, rfl⟩ := Option.map_eq_some_iff.mp h
      exact .digits hd he

theorem toLower_eq_x (h : c.toLower = 'x') : c = 'x' ∨ c = 'X' := by
  rw [Char.toLower] at h
  split at h
  · rename_i hletter
    have hcode : (c.toNat + 32) % 4294967296 = 120 := by simpa using congrArg Char.toNat h
    have hmost : c.toNat ≤ 90 := hletter.2
    have hX : c.toNat = 'X'.toNat := by
      show c.toNat = 88
      omega
    exact .inr (Char.toNat_inj.mp hX)
  · exact .inl h

/-- The letter of the marker is neither a digit nor a blank, so it is no channel behind a zero. -/
theorem not_channel_of_marker (h : b.toLower = hexadecimal.marker) : ¬Channel '0' b n := by
  have hb : b = 'x' ∨ b = 'X' := toLower_eq_x h
  intro hchannel
  cases hchannel with
  | digits ha hd => rcases hb with rfl | rfl <;> cases hd
  | behindBlank ha hd => cases ha
  | beforeBlank ha hblank => rcases hb with rfl | rfl <;> cases hblank

/-- The texts of two characters that denote an integer in base sixteen. -/
theorem read?_two : hexadecimal.read? [a, b] = some n ↔ Channel a b n := by
  rw [read?]
  by_cases hmarker : a = '0' ∧ b.toLower = hexadecimal.marker
  · obtain ⟨rfl, hb⟩ := hmarker
    have hnothing : hexadecimal.withoutMarker ['0', b] = [] := by
      simp [withoutMarker, hb]
    have hempty : hexadecimal.integer? [] = none := rfl
    have hchannel : ¬Channel '0' b n := not_channel_of_marker hb
    simp [hnothing, hempty, hchannel]
  · have hwhole : hexadecimal.withoutMarker [a, b] = [a, b] := by
      unfold withoutMarker
      split
      · rename_i letter rest heq
        cases heq
        exact if_neg fun hletter => hmarker ⟨rfl, hletter⟩
      · rfl
    rw [hwhole, integer?_two]

theorem Channel.unique {m : Int} (h : Channel a b m) (h' : Channel a b n) : m = n :=
  Option.some.inj ((read?_two.mpr h).symm.trans (read?_two.mpr h'))

/-! ## Digits that are written -/

/-- Whether a character is a digit that numbers are written with in base sixteen, in either case. -/
def IsHexDigit (c : Char) : Prop := ∃ d, hexadecimal.digit? c = some d

/-- These digits stand for themselves. -/
theorem scriptDigit?_eq (h : IsHexDigit c) : scriptDigit? c = hexadecimal.digit? c := by
  obtain ⟨d, hd⟩ := h
  obtain ⟨hless, hdigit⟩ := digit?_hexadecimal_iff.mp hd
  have hascii : c.toNat < 127 := by
    rw [Char.toLower] at hdigit
    split at hdigit
    · rename_i hletter
      have hmost : c.toNat ≤ 90 := hletter.2
      omega
    · rw [hdigit, toNat_digitChar hless]
      split <;> omega
  rw [scriptDigit?, narrowed, if_pos hascii]

end Base

namespace Conversion

open Base

variable {a b : Char} {d e : Nat} {n : Int}

/-- A channel is written with its two digits. -/
theorem channelDigits_eq (hd : d < 16) (he : e < 16) :
    channelDigits (16 * d + e) = [Nat.digitChar d, Nat.digitChar e] := by
  rcases Nat.eq_zero_or_pos d with rfl | hpositive
  · have hwrite : hexadecimal.write e = [Nat.digitChar e] := Nat.toDigits_of_lt_base he
    rw [Nat.mul_zero, Nat.zero_add, channelDigits, hwrite]
    rfl
  · have hquotient : (16 * d + e) / 16 = d := by omega
    have hrest : (16 * d + e) % 16 = e := by omega
    have hwrite : hexadecimal.write (16 * d + e) = [Nat.digitChar d, Nat.digitChar e] := by
      rw [write, radix, Nat.toDigits_of_base_le (by decide) (by omega), hquotient, hrest,
        Nat.toDigits_of_lt_base hd]
      rfl
    rw [channelDigits, hwrite]
    rfl

/-- A channel that is not negative has two digits. -/
theorem exists_channelDigits (h : Channel a b n) (hn : 0 ≤ n) :
    ∃ d < 16, ∃ e < 16, channelDigits n.toNat = [Nat.digitChar d, Nat.digitChar e] := by
  have hmost := h.bounds.2
  have hparts : n.toNat = 16 * (n.toNat / 16) + n.toNat % 16 := by omega
  have hd : n.toNat / 16 < 16 := by omega
  have he : n.toNat % 16 < 16 := by omega
  refine ⟨_, hd, _, he, ?_⟩
  rw [← channelDigits_eq hd he, ← hparts]

/-- A channel that is not negative is written as it was spelled, in lower case, exactly if it was
    spelled with two digits. -/
theorem channelDigits_eq_iff (h : Channel a b n) (hn : 0 ≤ n) :
    channelDigits n.toNat = [a.toLower, b.toLower] ↔ IsHexDigit a ∧ IsHexDigit b := by
  constructor
  · intro hwritten
    obtain ⟨d, hd, e, he, hdigits⟩ := exists_channelDigits h hn
    rw [hdigits] at hwritten
    obtain ⟨ha, hb⟩ := List.cons.inj hwritten
    exact ⟨⟨_, digit?_hexadecimal_iff.mpr ⟨hd, ha.symm⟩⟩,
      ⟨_, digit?_hexadecimal_iff.mpr ⟨he, (List.singleton_inj.mp hb).symm⟩⟩⟩
  · rintro ⟨ha, hb⟩
    obtain ⟨d, hd⟩ := ha
    obtain ⟨e, he⟩ := hb
    have hdigits : Channel a b (16 * d + e : Nat) :=
      .digits ((scriptDigit?_eq ⟨d, hd⟩).trans hd) ((scriptDigit?_eq ⟨e, he⟩).trans he)
    obtain ⟨hd, ha⟩ := digit?_hexadecimal_iff.mp hd
    obtain ⟨he, hb⟩ := digit?_hexadecimal_iff.mp he
    rw [h.unique hdigits, Int.toNat_natCast, channelDigits_eq hd he, ha, hb]

/-- Only a minus sign makes a channel negative. -/
theorem channel_nonneg (h : Channel a b n) (ha : IsHexDigit a) : 0 ≤ n := by
  cases h with
  | minus hb =>
    obtain ⟨d, hd⟩ := ha
    cases hd
  | _ => omega

/-! ## Channels as doubles -/

variable {x y z : Float} {r g : Int}

/-- A double is a natural number if it is one of an integer that is not negative. -/
theorem natural_of_ofInt? (purpose : Purpose) (h : n.natAbs < 2 ^ 53)
    (hx : Double.ofInt? n = some x) :
    natural purpose x = if n < 0 then .error (.problem (.notWhole purpose x)) else .ok n.toNat := by
  obtain ⟨x', hx', hwhole, hpart, hsign⟩ := Double.ofInt?_exact h
  obtain rfl : x' = x := Option.some.inj (hx'.symm.trans hx)
  simp only [natural, hwhole, hpart, hsign]
  by_cases hn : n < 0
  · simp [hn]
  · simp only [hn, decide_false, Bool.not_false, Bool.and_self, if_true, if_false]
    exact congrArg Except.ok (by omega)

/-- The characters of a text that the channels are read from. -/
def channelText (s : String) : List Char := s.toList.dropWhile (· = '#')

/-- The channels that six characters denote, two each. -/
def SpellsColour (s : List Char) (r g b : Int) : Prop :=
  ∃ r₁ r₂ g₁ g₂ b₁ b₂, s = [r₁, r₂, g₁, g₂, b₁, b₂]
    ∧ Channel r₁ r₂ r ∧ Channel g₁ g₂ g ∧ Channel b₁ b₂ b

theorem readText_eq_ok_iff : readText .hexadecimal [a, b] = .ok n ↔ Channel a b n := by
  rw [← read?_two, readText]
  cases hexadecimal.read? [a, b] with
  | none => simp
  | some m => simp

theorem toDouble_eq_ok (hx : Double.ofInt? n = some x) : toDouble n = .ok x := by
  rw [Faultless.toDouble_eq]
  dsimp only
  rw [hx, Option.elim_some]

theorem bind_of_ok {α β : Type} {p : Except Trouble α} {v : α} (h : p = .ok v)
    (f : α → Except Trouble β) : p.bind f = f v := by
  rw [h]
  rfl

theorem exists_of_bind_eq_ok {α β : Type} {p : Except Trouble α} {f : α → Except Trouble β} {w : β}
    (h : p.bind f = .ok w) : ∃ v, p = .ok v ∧ f v = .ok w := by
  cases p with
  | error trouble => cases h
  | ok v => exact ⟨v, rfl, h⟩

/-- The channels of a text are read one behind the other, and then converted. -/
theorem channels_text (s : String) : channels (.text s) =
    match channelText s with
    | [r₁, r₂, g₁, g₂, b₁, b₂] =>
      (readText .hexadecimal [r₁, r₂]).bind fun r => (readText .hexadecimal [g₁, g₂]).bind fun g =>
        (readText .hexadecimal [b₁, b₂]).bind fun b => (toDouble r).bind fun x =>
          (toDouble g).bind fun y => (toDouble b).bind fun z => .ok (x, y, z)
    | text => .error (.problem (.colourLength (String.ofList text))) := by
  unfold channels
  -- What the functions do makes no difference; unfolded, they would be evaluated.
  generalize toDouble = f
  generalize readText .hexadecimal = h
  rw [channelText, textOf]
  show (match List.dropWhile (fun x => decide (x = '#')) s.toList with
    | [r₁, r₂, g₁, g₂, b₁, b₂] => _
    | _ => _) = _
  split
  · rfl
  · rfl

/-- Six characters whose channels all denote something are a colour with these channels. -/
theorem channels_of_spelled {s : String} (h : SpellsColour (channelText s) r g n)
    (hx : Double.ofInt? r = some x) (hy : Double.ofInt? g = some y)
    (hz : Double.ofInt? n = some z) : channels (.text s) = .ok (x, y, z) := by
  obtain ⟨r₁, r₂, g₁, g₂, b₁, b₂, hs, hr, hg, hb⟩ := h
  rw [channels_text, hs]
  dsimp only
  rw [bind_of_ok (readText_eq_ok_iff.mpr hr), bind_of_ok (readText_eq_ok_iff.mpr hg),
    bind_of_ok (readText_eq_ok_iff.mpr hb), bind_of_ok (toDouble_eq_ok hx),
    bind_of_ok (toDouble_eq_ok hy), bind_of_ok (toDouble_eq_ok hz)]

/-- No other text is a colour. -/
theorem spelled_of_channels {s : String} {result : Float × Float × Float}
    (h : channels (.text s) = .ok result) : ∃ r g b, SpellsColour (channelText s) r g b := by
  rw [channels_text] at h
  generalize toDouble = f at h
  split at h
  · rename_i r₁ r₂ g₁ g₂ b₁ b₂ hs
    obtain ⟨r, hr, h⟩ := exists_of_bind_eq_ok h
    obtain ⟨g, hg, h⟩ := exists_of_bind_eq_ok h
    obtain ⟨b, hb, -⟩ := exists_of_bind_eq_ok h
    exact ⟨r, g, b, r₁, r₂, g₁, g₂, b₁, b₂, hs, readText_eq_ok_iff.mp hr,
      readText_eq_ok_iff.mp hg, readText_eq_ok_iff.mp hb⟩
  · cases h

/-- Three natural numbers of at most eight bits are a colour, with two digits each. -/
theorem colour_of_natural {k l m : Nat} (hx : natural .colour x = .ok k)
    (hy : natural .colour y = .ok l) (hz : natural .colour z = .ok m)
    (hk : k ≤ 255) (hl : l ≤ 255) (hm : m ≤ 255) :
    colour x y z = .ok (String.ofList (channelDigits k ++ channelDigits l ++ channelDigits m)) := by
  have hbounded : ([k, l, m].any (· > 255)) = false := by
    simp only [List.any_cons, List.any_nil, Bool.or_false, Bool.or_eq_false_iff,
      decide_eq_false_iff_not]
    omega
  unfold colour
  rw [hx, hy, hz]
  simp only [bind, Except.bind, hbounded]
  simp

theorem natural_of_colour {s : String} (h : colour x y z = .ok s) :
    (∃ k, natural .colour x = .ok k) ∧ (∃ l, natural .colour y = .ok l)
      ∧ ∃ m, natural .colour z = .ok m := by
  obtain ⟨k, hk, h⟩ := exists_of_bind_eq_ok h
  obtain ⟨l, hl, h⟩ := exists_of_bind_eq_ok h
  obtain ⟨m, hm, -⟩ := exists_of_bind_eq_ok h
  exact ⟨⟨k, hk⟩, ⟨l, hl⟩, m, hm⟩

end Conversion

open Base Builtin Conversion

variable {s : String} {r g b : Int} {x y z : Float}

/-! ## The conversions of colours -/

/-- The six characters that three channels are written as. -/
def writtenColour (r g b : Int) : List Char :=
  channelDigits r.toNat ++ channelDigits g.toNat ++ channelDigits b.toNat

theorem Conversion.SpellsColour.bounds {body : List Char} (h : SpellsColour body r g b) :
    (-15 ≤ r ∧ r ≤ 255) ∧ (-15 ≤ g ∧ g ≤ 255) ∧ (-15 ≤ b ∧ b ≤ 255) := by
  obtain ⟨r₁, r₂, g₁, g₂, b₁, b₂, -, hr, hg, hb⟩ := h
  exact ⟨hr.bounds, hg.bounds, hb.bounds⟩

theorem Conversion.SpellsColour.nonneg {body : List Char} (h : SpellsColour body r g b)
    (hdigits : ∀ c ∈ body, IsHexDigit c) : 0 ≤ r ∧ 0 ≤ g ∧ 0 ≤ b := by
  obtain ⟨r₁, r₂, g₁, g₂, b₁, b₂, rfl, hr, hg, hb⟩ := h
  exact ⟨channel_nonneg hr (hdigits r₁ (by simp)), channel_nonneg hg (hdigits g₁ (by simp)),
    channel_nonneg hb (hdigits b₁ (by simp))⟩

theorem find?_hex_rgb :
    Table.find? "hex_rgb" functions = some (.native (Native.triple channels)) := rfl

theorem produces_hex_rgb (h : SpellsColour (channelText s) r g b)
    (hx : Double.ofInt? r = some x) (hy : Double.ofInt? g = some y)
    (hz : Double.ofInt? b = some z) :
    Produces "hex_rgb" [.text s] [.number z, .number y, .number x] := by
  refine produces_of_body find?_hex_rgb rfl (List.forall₂_cons.mpr ⟨rfl, .nil⟩) ?_
  have hchannels := channels_of_spelled h hx hy hz
  simp only [Native.triple, List.reverse_cons, List.reverse_nil, List.nil_append, hchannels]
  rfl

theorem declines_hex_rgb (h : ∀ r g b, ¬SpellsColour (channelText s) r g b) :
    Declines "hex_rgb" [.text s] := by
  cases hchannels : channels (.text s) with
  | ok result =>
    obtain ⟨r, g, b, hspelled⟩ := spelled_of_channels hchannels
    exact absurd hspelled (h r g b)
  | error trouble =>
    refine declines_of_body find?_hex_rgb rfl (List.forall₂_cons.mpr ⟨rfl, .nil⟩) ?_
      (Faultless.channels _ trouble hchannels)
    simp only [Native.triple, List.reverse_cons, List.reverse_nil, List.nil_append, hchannels]
    rfl

theorem fits_numbers (x y z : Float) :
    Fits [.number, .number, .number] [.number z, .number y, .number x] := by
  simp [Fits, CellType.accepts]

theorem find?_rgb_hex :
    Table.find? "rgb_hex" functions = some (.native (Native.joined colour)) := rfl

theorem produces_rgb_hex (hcolour : colour x y z = .ok s) :
    Produces "rgb_hex" [.number z, .number y, .number x] [.text s] := by
  refine produces_of_body find?_rgb_hex rfl (fits_numbers x y z) ?_
  simp only [Native.joined, List.reverse_cons, List.reverse_nil, List.nil_append,
    List.cons_append, hcolour]
  rfl

theorem declines_rgb_hex {trouble : Trouble} (hcolour : colour x y z = .error trouble) :
    Declines "rgb_hex" [.number z, .number y, .number x] := by
  refine declines_of_body find?_rgb_hex rfl (fits_numbers x y z) ?_
    (Faultless.colour x y z trouble hcolour)
  simp only [Native.joined, List.reverse_cons, List.reverse_nil, List.nil_append,
    List.cons_append, hcolour]
  rfl

/-- The doubles of channels are natural numbers, unless a channel is negative. -/
theorem rgb_hex_of_spelled {body : List Char} (h : SpellsColour body r g b)
    (hx : Double.ofInt? r = some x) (hy : Double.ofInt? g = some y)
    (hz : Double.ofInt? b = some z) :
    (0 ≤ r ∧ 0 ≤ g ∧ 0 ≤ b)
        ∧ Produces "rgb_hex" [.number z, .number y, .number x]
          [.text (String.ofList (writtenColour r g b))]
      ∨ (r < 0 ∨ g < 0 ∨ b < 0) ∧ Declines "rgb_hex" [.number z, .number y, .number x] := by
  obtain ⟨hr, hg, hb⟩ := h.bounds
  have hnatural := natural_of_ofInt? .colour (by omega) hx
  have hnatural' := natural_of_ofInt? .colour (by omega) hy
  have hnatural'' := natural_of_ofInt? .colour (by omega) hz
  by_cases hsign : 0 ≤ r ∧ 0 ≤ g ∧ 0 ≤ b
  · obtain ⟨hr', hg', hb'⟩ := hsign
    rw [if_neg (by omega)] at hnatural hnatural' hnatural''
    exact .inl ⟨⟨hr', hg', hb'⟩, produces_rgb_hex (colour_of_natural hnatural hnatural' hnatural''
      (by omega) (by omega) (by omega))⟩
  · refine .inr ⟨by omega, ?_⟩
    cases hcolour : colour x y z with
    | error trouble => exact declines_rgb_hex hcolour
    | ok s =>
      -- A negative channel is no natural number.
      obtain ⟨⟨k, hk⟩, ⟨l, hl⟩, m, hm⟩ := natural_of_colour hcolour
      rw [hk] at hnatural
      rw [hl] at hnatural'
      rw [hm] at hnatural''
      split at hnatural
      · cases hnatural
      split at hnatural'
      · cases hnatural'
      split at hnatural''
      · cases hnatural''
      omega

/-- Channels are written as they were spelled, in lower case, if that was with digits alone. -/
theorem writtenColour_eq_iff {body : List Char} (h : SpellsColour body r g b)
    (hsign : 0 ≤ r ∧ 0 ≤ g ∧ 0 ≤ b) :
    writtenColour r g b = body.map Char.toLower ↔ ∀ c ∈ body, IsHexDigit c := by
  obtain ⟨r₁, r₂, g₁, g₂, b₁, b₂, rfl, hr, hg, hb⟩ := h
  have hr' := channelDigits_eq_iff hr hsign.1
  have hg' := channelDigits_eq_iff hg hsign.2.1
  have hb' := channelDigits_eq_iff hb hsign.2.2
  obtain ⟨d₁, -, e₁, -, hc₁⟩ := exists_channelDigits hr hsign.1
  obtain ⟨d₂, -, e₂, -, hc₂⟩ := exists_channelDigits hg hsign.2.1
  obtain ⟨d₃, -, e₃, -, hc₃⟩ := exists_channelDigits hb hsign.2.2
  rw [hc₁] at hr'
  rw [hc₂] at hg'
  rw [hc₃] at hb'
  rw [writtenColour, hc₁, hc₂, hc₃]
  simp only [List.cons.injEq, and_true, List.cons_append, List.nil_append, List.map,
    List.forall_mem_cons, List.not_mem_nil, IsEmpty.forall_iff, implies_true] at hr' hg' hb' ⊢
  constructor
  · rintro ⟨h₁, h₁', h₂, h₂', h₃, h₃'⟩
    obtain ⟨hr₁, hr₂⟩ := hr'.mp ⟨h₁, h₁'⟩
    obtain ⟨hg₁, hg₂⟩ := hg'.mp ⟨h₂, h₂'⟩
    obtain ⟨hb₁, hb₂⟩ := hb'.mp ⟨h₃, h₃'⟩
    exact ⟨hr₁, hr₂, hg₁, hg₂, hb₁, hb₂⟩
  · rintro ⟨hr₁, hr₂, hg₁, hg₂, hb₁, hb₂⟩
    obtain ⟨h₁, h₁'⟩ := hr'.mpr ⟨hr₁, hr₂⟩
    obtain ⟨h₂, h₂'⟩ := hg'.mpr ⟨hg₁, hg₂⟩
    obtain ⟨h₃, h₃'⟩ := hb'.mpr ⟨hb₁, hb₂⟩
    exact ⟨h₁, h₁', h₂, h₂', h₃, h₃'⟩

/-- Every text is declined as a colour unless it has six characters behind its number signs, two for
    each channel.  The channels are pushed as doubles, and the conversion back declines negative
    ones, and writes all others.  It gives the characters of the text in lower case exactly if these
    are hexadecimal digits: channels of a digit and a sign or a blank, or with digits of another
    script, are accepted as well, but not given back. -/
theorem colours_given_back_of_digits (s : String) :
    (∀ r g b, ¬SpellsColour (channelText s) r g b) ∧ Declines "hex_rgb" [.text s]
      ∨ ∃ r g b x y z, SpellsColour (channelText s) r g b
        ∧ (-15 ≤ r ∧ r ≤ 255) ∧ (-15 ≤ g ∧ g ≤ 255) ∧ (-15 ≤ b ∧ b ≤ 255)
        ∧ Double.ofInt? r = some x ∧ Double.ofInt? g = some y ∧ Double.ofInt? b = some z
        ∧ Produces "hex_rgb" [.text s] [.number z, .number y, .number x]
        ∧ ((0 ≤ r ∧ 0 ≤ g ∧ 0 ≤ b)
            ∧ Produces "rgb_hex" [.number z, .number y, .number x]
              [.text (String.ofList (writtenColour r g b))]
          ∨ (r < 0 ∨ g < 0 ∨ b < 0) ∧ Declines "rgb_hex" [.number z, .number y, .number x])
        ∧ (Produces "rgb_hex" [.number z, .number y, .number x]
            [.text (String.ofList ((channelText s).map Char.toLower))]
          ↔ ∀ c ∈ channelText s, IsHexDigit c) := by
  by_cases hspelled : ∃ r g b, SpellsColour (channelText s) r g b
  · obtain ⟨r, g, b, hspelled⟩ := hspelled
    obtain ⟨hr, hg, hb⟩ := hspelled.bounds
    obtain ⟨x, hx, -⟩ := Double.ofInt?_exact (i := r) (by omega)
    obtain ⟨y, hy, -⟩ := Double.ofInt?_exact (i := g) (by omega)
    obtain ⟨z, hz, -⟩ := Double.ofInt?_exact (i := b) (by omega)
    have hback := rgb_hex_of_spelled hspelled hx hy hz
    refine .inr ⟨r, g, b, x, y, z, hspelled, hr, hg, hb, hx, hy, hz,
      produces_hex_rgb hspelled hx hy hz, hback, ?_⟩
    constructor
    · intro hsame
      obtain ⟨hsign, hwritten⟩ | ⟨-, hdeclines⟩ := hback
      · have htext : String.ofList ((channelText s).map Char.toLower)
            = String.ofList (writtenColour r g b) :=
          Cell.text.inj (List.singleton_inj.mp (hsame.unique hwritten))
        have hlist := congrArg String.toList htext
        rw [String.toList_ofList, String.toList_ofList] at hlist
        exact (writtenColour_eq_iff hspelled hsign).mp hlist.symm
      · exact absurd hdeclines hsame.not_declines
    · intro hdigits
      have hsign := hspelled.nonneg hdigits
      obtain ⟨-, hwritten⟩ | ⟨hnegative, -⟩ := hback
      · rwa [(writtenColour_eq_iff hspelled hsign).mpr hdigits] at hwritten
      · omega
  · have hnone : ∀ r g b, ¬SpellsColour (channelText s) r g b :=
      fun r g b h => hspelled ⟨r, g, b, h⟩
    exact .inl ⟨hnone, declines_hex_rgb hnone⟩

/-- Three numbers with minus signs are accepted as a colour and not given back. -/
theorem colours_not_always_given_back :
    ¬∀ (s : String) (cells : List Cell), Produces "hex_rgb" [.text s] cells →
      (∀ c ∈ cells, ∃ n : Nat, n ≤ 255 ∧ c = .number (Double.ofNat n))
        ∧ Produces "rgb_hex" cells [.text (String.ofList ((channelText s).map Char.toLower))] := by
  intro h
  have hspelled : SpellsColour (channelText "-1-2-3") (-1) (-2) (-3) :=
    ⟨'-', '1', '-', '2', '-', '3', rfl, .minus rfl, .minus rfl, .minus rfl⟩
  obtain ⟨x, hx, -⟩ := Double.ofInt?_exact (i := -1) (by decide)
  obtain ⟨y, hy, -⟩ := Double.ofInt?_exact (i := -2) (by decide)
  obtain ⟨z, hz, -⟩ := Double.ofInt?_exact (i := -3) (by decide)
  obtain ⟨-, hback⟩ := h _ _ (produces_hex_rgb hspelled hx hy hz)
  obtain ⟨⟨hsign, -⟩, -⟩ | ⟨-, hdeclines⟩ := rgb_hex_of_spelled hspelled hx hy hz
  · exact absurd hsign (by decide)
  · exact hback.not_declines hdeclines

end StackCalc
