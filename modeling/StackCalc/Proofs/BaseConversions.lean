/-
  StackCalc.Proofs.BaseConversions

  The conversions between numbers and numerals in base two and base sixteen.  A whole number that
  is not less than zero has a numeral in each base, the conversions between the two bases turn one
  into the other, and both are converted back to the number (`base_conversions_round_trip`).  Of
  the numerals that are converted back, those of numbers denote no negative integer, but texts
  with a minus sign do (`base_conversions_signed`).
-/

import StackCalc.Proofs.BaseNumerals
import StackCalc.Proofs.NativeCalls
import StackCalc.Proofs.Signs

namespace StackCalc

/-! ## Functions of one cell -/

namespace Builtin

/-- A built-in function gives a cell for a cell: on every stack with the one on top, under
    whatever name it is called, it puts the other in its place, and nothing else changes. -/
def Gives (key : String) (c d : Cell) : Prop :=
  ∃ function, Table.find? key functions = some function ∧ ∀ name below m,
    applyFunction function name (c :: below) m = (.ok (d :: below), m)

/-- A built-in function refuses a cell: it fails on every stack with the cell on top, as it would
    for any operands out of its domain, and nothing changes. -/
def Refuses (key : String) (c : Cell) : Prop :=
  ∃ function, Table.find? key functions = some function ∧ ∀ name below m, ∃ failure,
    applyFunction function name (c :: below) m = (.error (.failure failure), m)
      ∧ failure.cause.category = .domain

variable {key : String} {c d d' : Cell}

theorem gives_iff_produces : Gives key c d ↔ Produces key [c] [d] := Iff.rfl

theorem refuses_iff_declines : Refuses key c ↔ Declines key [c] := Iff.rfl

theorem Gives.unique (h : Gives key c d) (h' : Gives key c d') : d = d' :=
  List.singleton_inj.mp ((gives_iff_produces.mp h).unique (gives_iff_produces.mp h'))

theorem Gives.not_refuses (h : Gives key c d) : ¬Refuses key c :=
  (gives_iff_produces.mp h).not_declines

section

variable {operation : Native} {type output : CellType}

theorem gives_of_body (hfind : Table.find? key functions = some (.native operation))
    (heffect : operation.effect = ⟨some [type], some [output]⟩) (hc : type.accepts c = true)
    (hbody : operation.body [c] = .ok [d]) : Gives key c d :=
  gives_iff_produces.mpr
    (produces_of_body hfind heffect (List.forall₂_cons.mpr ⟨hc, .nil⟩) hbody)

theorem refuses_of_body (hfind : Table.find? key functions = some (.native operation))
    (heffect : operation.effect = ⟨some [type], some [output]⟩) (hc : type.accepts c = true)
    {trouble : Trouble} (hbody : operation.body [c] = .error trouble) (hown : trouble.IsOwn) :
    Refuses key c :=
  refuses_iff_declines.mpr
    (declines_of_body hfind heffect (List.forall₂_cons.mpr ⟨hc, .nil⟩) hbody hown)

end

end Builtin

/-! ## The conversions of a base -/

namespace Base

open Builtin Conversion

/-- The other base. -/
def other : Base → Base
  | binary => hexadecimal
  | hexadecimal => binary

/-- The function that writes a number in the base. -/
def fromNumber : Base → String
  | binary => "dec_bin"
  | hexadecimal => "dec_hex"

/-- The function that reads a numeral in the base. -/
def toNumber : Base → String
  | binary => "bin_dec"
  | hexadecimal => "hex_dec"

/-- The function that writes a numeral in the base in the other one. -/
def toOther : Base → String
  | binary => "bin_hex"
  | hexadecimal => "hex_bin"

variable {base : Base} {c : Cell} {x : Float} {n : Int}

theorem find?_fromNumber (base : Base) : ∃ purpose,
    Table.find? base.fromNumber functions
      = some (.native (Native.numeral (writeNumber base purpose))) := by
  cases base with
  | binary => exact ⟨.binary, rfl⟩
  | hexadecimal => exact ⟨.hexadecimal, rfl⟩

theorem find?_toNumber (base : Base) :
    Table.find? base.toNumber functions = some (.native (Native.value (valueIn base))) := by
  cases base <;> rfl

theorem find?_toOther (base : Base) :
    Table.find? base.toOther functions
      = some (.native (Native.renumeral (respell base base.other))) := by
  cases base <;> rfl

/-- A cell that denotes an integer is written in the other base. -/
theorem gives_toOther (h : readCell base c = .ok n) :
    Gives base.toOther c (.text (String.ofList (base.other.writeInt n))) := by
  refine gives_of_body (find?_toOther base) rfl rfl ?_
  simp only [Native.renumeral, respell, h]
  rfl

theorem valueIn_of_ok (h : readCell base c = .ok n) :
    valueIn base c
      = (Double.ofInt? n).elim (.error (.refused (.undefined .integerTooLarge))) .ok := by
  have hbind : ∀ f : Int → Except Trouble Float, (Except.ok n).bind f = f n := fun _ => rfl
  rw [valueIn, h, Faultless.toDouble_eq, hbind]

/-- A cell that denotes an integer is read as the double nearest to it. -/
theorem gives_toNumber (h : readCell base c = .ok n) (hx : Double.ofInt? n = some x) :
    Gives base.toNumber c (.number x) := by
  have hvalue : valueIn base c = .ok x := by rw [valueIn_of_ok h, hx, Option.elim_some]
  refine gives_of_body (find?_toNumber base) rfl rfl ?_
  simp only [Native.value, hvalue]
  rfl

/-- An integer without a nearest double is not read. -/
theorem refuses_toNumber (h : readCell base c = .ok n) (hx : Double.ofInt? n = none) :
    Refuses base.toNumber c := by
  have hvalue : valueIn base c = .error (.refused (.undefined .integerTooLarge)) := by
    rw [valueIn_of_ok h, hx, Option.elim_none]
  refine refuses_of_body (find?_toNumber base) rfl rfl ?_ (Faultless.valueIn base c _ hvalue)
  simp only [Native.value, hvalue]
  rfl

/-- A cell that denotes no integer is neither read nor written. -/
theorem refuses_of_error {trouble : Trouble} (h : readCell base c = .error trouble) :
    Refuses base.toNumber c ∧ Refuses base.toOther c := by
  have hown : trouble.IsOwn := Faultless.readCell base c trouble h
  constructor
  · refine refuses_of_body (find?_toNumber base) rfl rfl ?_ hown
    simp only [Native.value, valueIn, h]
    rfl
  · refine refuses_of_body (find?_toOther base) rfl rfl ?_ hown
    simp only [Native.renumeral, respell, h]
    rfl

/-! ## Round trips -/

/-- A whole number that is not less than zero is written in the base. -/
theorem gives_fromNumber (hwhole : Double.isWhole x = true) (hx : ¬x < 0) :
    Gives base.fromNumber (.number x)
      (.text (String.ofList (base.write (Double.wholePart x)))) := by
  obtain ⟨purpose, hfind⟩ := find?_fromNumber base
  refine gives_of_body hfind rfl rfl ?_
  simp only [Native.numeral, writeNumber, natural, hwhole, hx, decide_false, Bool.not_false,
    Bool.and_true, if_true]
  rfl

/-- What is written for a number denotes it. -/
theorem readCell_write (base : Base) (k : Nat) :
    readCell base (.text (String.ofList (base.write k))) = .ok (k : Int) := by
  have hread := base.read?_write k
  simp only [readCell, textOf, String.toList_ofList]
  simp [Except.bind, readText, hread]

theorem writeInt_natCast (base : Base) (k : Nat) : base.writeInt (k : Int) = base.write k := by
  have hsign : ¬(k : Int) < 0 := by omega
  rw [writeInt, if_neg hsign, Int.natAbs_natCast]

/-- The numeral of a number in one base is turned into its numeral in the other, and back into a
    double that equals the number. -/
theorem round_trip (base : Base) (hwhole : Double.isWhole x = true) (hx : ¬x < 0) :
    Gives base.fromNumber (.number x) (.text (String.ofList (base.write (Double.wholePart x))))
      ∧ Gives base.toNumber (.text (String.ofList (base.write (Double.wholePart x))))
        (.number (Double.unsigned x))
      ∧ Gives base.toOther (.text (String.ofList (base.write (Double.wholePart x))))
        (.text (String.ofList (base.other.write (Double.wholePart x)))) := by
  have hread := readCell_write base (Double.wholePart x)
  have hother := gives_toOther hread
  rw [writeInt_natCast] at hother
  exact ⟨gives_fromNumber hwhole hx, gives_toNumber hread (Double.ofInt?_wholePart hwhole), hother⟩

/-! ## Signs -/

/-- A cell denotes a negative integer if it is a text with a minus sign in front of its digits, and
    these are not those of zero. -/
theorem readCell_neg_iff (h : readCell base c = .ok n) :
    n < 0 ↔ n ≠ 0 ∧ ∃ s, c = .text s ∧ base.isSigned s.toList = true := by
  have hread : ∀ s, readText base s = .ok n → (n < 0 ↔ n ≠ 0 ∧ base.isSigned s = true) := by
    intro s hs
    rw [readText] at hs
    split at hs
    · rename_i k hk
      cases hs
      exact read?_neg_iff hk
    · cases hs
  cases c with
  | text s =>
    rw [hread s.toList h]
    constructor
    · rintro ⟨hne, hsigned⟩
      exact ⟨hne, s, rfl, hsigned⟩
    · rintro ⟨hne, s', hs', hsigned⟩
      cases hs'
      exact ⟨hne, hsigned⟩
  | number x =>
    simp only [readCell, textOf] at h
    cases hnatural : natural .baseConversion x with
    | error trouble =>
      rw [hnatural] at h
      cases h
    | ok k =>
      rw [hnatural] at h
      -- The decimal digits of a number have no sign in front of them.
      have hunsigned : base.isSigned (Nat.toDigits 10 k) = false :=
        isSigned_of_isPlain fun _ hc => isPlain_of_mem_toDigits hc
      rw [hread (Nat.toDigits 10 k) h, hunsigned]
      constructor
      · rintro ⟨-, hsigned⟩
        cases hsigned
      · rintro ⟨-, s, hs, -⟩
        cases hs

end Base

open Builtin

/-- Base conversions commute and are undone by their counterparts.  For every whole double that is
    not less than zero, of whatever size, no conversion fails: its numerals in base sixteen and in
    base two are converted back to a double that equals it, which is the double itself unless that
    is the negative zero, and each of the two is converted to the other. -/
theorem base_conversions_round_trip (x : Float) (hwhole : Double.isWhole x = true) (hx : 0 ≤ x) :
    ∃ (hex bin : String) (y : Float), (y == x) = true ∧ (Double.isNegative x = false → y = x)
      ∧ Gives "dec_hex" (.number x) (.text hex) ∧ Gives "dec_bin" (.number x) (.text bin)
      ∧ Gives "hex_dec" (.text hex) (.number y) ∧ Gives "bin_dec" (.text bin) (.number y)
      ∧ Gives "hex_bin" (.text hex) (.text bin) ∧ Gives "bin_hex" (.text bin) (.text hex) := by
  have hnonneg : ¬x < 0 := Double.not_lt_zero hx
  have hfinite : Double.isFinite x = true := by
    rw [Double.isWhole, Bool.and_eq_true] at hwhole
    exact hwhole.1
  obtain ⟨hhex, hhexBack, hhexBin⟩ := Base.hexadecimal.round_trip hwhole hnonneg
  obtain ⟨hbin, hbinBack, hbinHex⟩ := Base.binary.round_trip hwhole hnonneg
  exact ⟨_, _, Double.unsigned x, Double.unsigned_beq hfinite hnonneg,
    Double.unsigned_of_not_isNegative hfinite, hhex, hbin, hhexBack, hbinBack, hhexBin, hbinHex⟩

/-- Two hundred and fifty-five. -/
theorem base_conversions_round_trip_byte :
    ∃ (hex bin : String) (y : Float), (y == 255) = true
      ∧ (Double.isNegative 255 = false → y = 255)
      ∧ Gives "dec_hex" (.number 255) (.text hex) ∧ Gives "dec_bin" (.number 255) (.text bin)
      ∧ Gives "hex_dec" (.text hex) (.number y) ∧ Gives "bin_dec" (.text bin) (.number y)
      ∧ Gives "hex_bin" (.text hex) (.text bin) ∧ Gives "bin_hex" (.text bin) (.text hex) :=
  base_conversions_round_trip 255 (by decide +kernel) (by decide +kernel)

/-- What the conversions of numerals accept.  A cell that denotes no integer in the base is refused
    by both; any other is written in the other base and read as the double nearest to the integer,
    if there is one, and refused if not.  The integer is never negative for a number, and for a
    text it is negative exactly if the text has a minus sign in front of its digits and does not
    denote zero. -/
theorem base_conversions_signed (base : Base) (c : Cell) :
    (Refuses base.toNumber c ∧ Refuses base.toOther c)
      ∨ ∃ n : Int, (n < 0 ↔ n ≠ 0 ∧ ∃ s, c = .text s ∧ base.isSigned s.toList = true)
        ∧ Gives base.toOther c (.text (String.ofList (base.other.writeInt n)))
        ∧ ((∃ x, Double.ofInt? n = some x ∧ Gives base.toNumber c (.number x))
          ∨ Double.ofInt? n = none ∧ Refuses base.toNumber c) := by
  cases hread : Conversion.readCell base c with
  | error trouble => exact .inl (Base.refuses_of_error hread)
  | ok n =>
    refine .inr ⟨n, Base.readCell_neg_iff hread, Base.gives_toOther hread, ?_⟩
    cases hx : Double.ofInt? n with
    | some x => exact .inl ⟨x, rfl, Base.gives_toNumber hread hx⟩
    | none => exact .inr ⟨rfl, Base.refuses_toNumber hread hx⟩

/-- Some texts that are accepted denote negative integers: `-ff` is read as -255. -/
theorem base_conversions_not_unsigned :
    ¬∀ (base : Base) (c : Cell),
      (Refuses base.toNumber c ∨ ∃ x, 0 ≤ x ∧ Gives base.toNumber c (.number x))
        ∧ (Refuses base.toOther c
          ∨ ∃ n : Nat, Gives base.toOther c (.text (String.ofList (base.other.write n)))) := by
  intro h
  have hread : Conversion.readCell .hexadecimal (.text "-ff") = .ok (-255) := rfl
  have hx : Double.ofInt? (-255) = some (-255) := by decide +kernel
  have hgives : Gives Base.hexadecimal.toNumber (.text "-ff") (.number (-255)) :=
    Base.gives_toNumber hread hx
  have hnegative : ¬(0 : Float) ≤ -255 := by decide +kernel
  obtain hrefuses | ⟨x, hnonneg, hgives'⟩ := (h .hexadecimal (.text "-ff")).1
  · exact hgives.not_refuses hrefuses
  · have hsame : Cell.number (-255) = .number x := hgives.unique hgives'
    cases hsame
    exact hnegative hnonneg

end StackCalc
