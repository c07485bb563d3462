/-
  StackCalc.Proofs.Terminals

  The terminals of the language as patterns.  Comments, keywords, numerals, symbols, words and
  the blanks between them each have a pattern, and at every place of a text the first terminal
  in their order that matches there is taken (`firstMatch`).  A keyword or a numeral has to
  end where a run ends, a word takes all of the run, and a comment is closed by the first run
  that closes it; so reading a text terminal by terminal is scanning it
  (`lexes_iff_scan`).
-/

import Mathlib.Data.List.TakeWhile
import StackCalc.Proofs.Patterns
import StackCalc.Proofs.Words

namespace StackCalc

open StackCalc.Text

/-! ## Numerals -/

namespace Pattern

/-- A sign, or nothing. -/
def sign : Pattern := optional (.one fun c => c = '+' || c = '-')

def digits : Pattern := atLeastOne isDigit

def point : Pattern := .one (· = '.')

/-- Digits with at most one point among or around them. -/
def mantissa : Pattern :=
  .either (.seq digits (.seq (optional point) (.many isDigit))) (.seq point digits)

def exponent : Pattern := .seq (.one fun c => c = 'e' || c = 'E') (.seq sign digits)

def numeral : Pattern := .seq sign (.seq mantissa (optional exponent))

variable {before : Option Char} {piece rest s t : List Char}

theorem fits_sign :
    sign.Fits before piece rest ↔ piece = [] ∨ piece = ['+'] ∨ piece = ['-'] := by
  simp only [sign, fits_optional, Fits, Bool.or_eq_true, decide_eq_true_eq]
  grind

theorem fits_digits : digits.Fits before piece rest ↔ piece ≠ [] ∧ ∀ c ∈ piece, isDigit c = true :=
  fits_atLeastOne

theorem fits_mantissa :
    mantissa.Fits before piece rest
      ↔ (piece ≠ [] ∧ ∀ c ∈ piece, isDigit c = true)
        ∨ ∃ whole fraction, piece = whole ++ '.' :: fraction ∧ (whole ≠ [] ∨ fraction ≠ [])
          ∧ (∀ c ∈ whole, isDigit c = true) ∧ ∀ c ∈ fraction, isDigit c = true := by
  simp only [mantissa, point, Fits, fits_digits, fits_optional, decide_eq_true_eq]
  constructor
  · rintro (⟨whole, _, rfl, ⟨hne, hwhole⟩, mark, fraction, rfl, ⟨_, rfl, rfl⟩ | rfl, hfraction⟩ |
      ⟨_, fraction, rfl, ⟨_, rfl, rfl⟩, hne, hfraction⟩)
    · exact .inr ⟨whole, fraction, rfl, .inl hne, hwhole, hfraction⟩
    · refine .inl ⟨by simp [hne], ?_⟩
      rw [List.nil_append, List.forall_mem_append]
      exact ⟨hwhole, hfraction⟩
    · exact .inr ⟨[], fraction, rfl, .inr hne, List.forall_mem_nil _, hfraction⟩
  · rintro (⟨hne, hall⟩ | ⟨whole, fraction, rfl, hne, hwhole, hfraction⟩)
    · exact .inl ⟨piece, [], (List.append_nil _).symm, ⟨hne, hall⟩, [], [], rfl, .inr rfl,
        List.forall_mem_nil _⟩
    · by_cases hnil : whole = []
      · subst hnil
        exact .inr ⟨['.'], fraction, rfl, ⟨'.', rfl, rfl⟩, by simpa using hne, hfraction⟩
      · exact .inl ⟨whole, '.' :: fraction, rfl, ⟨hnil, hwhole⟩, ['.'], fraction, rfl,
          .inl ⟨'.', rfl, rfl⟩, hfraction⟩

theorem fits_exponent :
    exponent.Fits before piece rest ↔ ∃ mark sign digits, piece = mark :: (sign ++ digits)
      ∧ (mark = 'e' ∨ mark = 'E') ∧ (sign = [] ∨ sign = ['+'] ∨ sign = ['-'])
      ∧ digits ≠ [] ∧ ∀ c ∈ digits, isDigit c = true := by
  simp only [exponent, Fits, fits_sign, fits_digits, Bool.or_eq_true, decide_eq_true_eq]
  constructor
  · rintro ⟨_, _, rfl, ⟨mark, rfl, hmark⟩, sign, digits, rfl, hsign, hdigits⟩
    exact ⟨mark, sign, digits, rfl, hmark, hsign, hdigits⟩
  · rintro ⟨mark, sign, digits, rfl, hmark, hsign, hdigits⟩
    exact ⟨[mark], sign ++ digits, rfl, ⟨mark, rfl, hmark⟩, sign, digits, rfl, hsign, hdigits⟩

end Pattern

namespace Double

variable {s t sign whole fraction tail : List Char}

theorem isDigit_ne {c d : Char} (hc : isDigit c = true) (hd : isDigit d = false) : c ≠ d := by
  rintro rfl
  rw [hc] at hd
  cases hd

/-- A sign is taken off a text that goes on without one. -/
theorem takeSign_append (hsign : sign = [] ∨ sign = ['+'] ∨ sign = ['-'])
    (ht : ∀ c, t.head? = some c → c ≠ '+' ∧ c ≠ '-') : (takeSign (sign ++ t)).2 = t := by
  rcases hsign with rfl | rfl | rfl
  · rw [List.nil_append]
    unfold takeSign
    split
    · exact absurd rfl (ht _ rfl).2
    · exact absurd rfl (ht _ rfl).1
    · rfl
  · rfl
  · rfl

/-- Every text is a sign, or nothing, and what is left without it. -/
theorem exists_sign (s : List Char) :
    ∃ sign, s = sign ++ (takeSign s).2 ∧ (sign = [] ∨ sign = ['+'] ∨ sign = ['-']) := by
  unfold takeSign
  split
  · exact ⟨['-'], rfl, .inr (.inr rfl)⟩
  · exact ⟨['+'], rfl, .inr (.inl rfl)⟩
  · exact ⟨[], rfl, .inl rfl⟩

/-- Digits at the front of a text do not look like a sign. -/
theorem head_of_digits (hne : s ≠ []) (hs : ∀ c ∈ s, isDigit c = true) (t : List Char) :
    ∀ c, (s ++ t).head? = some c → c ≠ '+' ∧ c ≠ '-' := by
  obtain ⟨d, s, rfl⟩ := List.exists_cons_of_ne_nil hne
  intro c hc
  obtain rfl := Option.some.inj hc
  have hd := hs d (List.mem_cons_self ..)
  exact ⟨isDigit_ne hd (by decide), isDigit_ne hd (by decide)⟩

/-- All digits in front of a text that does not go on with one are taken off. -/
theorem digits_append (hs : ∀ c ∈ s, isDigit c = true)
    (ht : ∀ c, t.head? = some c → isDigit c = false) :
    (s ++ t).takeWhile isDigit = s ∧ (s ++ t).dropWhile isDigit = t := by
  rw [List.takeWhile_append_of_pos hs, List.dropWhile_append_of_pos hs]
  cases t with
  | nil => exact ⟨List.append_nil s, rfl⟩
  | cons c t =>
    have hc : ¬isDigit c = true := by simp [ht c rfl]
    rw [List.takeWhile_cons_of_neg hc, List.dropWhile_cons_of_neg hc]
    exact ⟨List.append_nil s, rfl⟩

theorem exponentOf?_isSome_iff (before : Option Char) (rest : List Char) :
    (exponentOf? s).isSome = true ↔ (Pattern.optional .exponent).Fits before s rest := by
  rw [Pattern.fits_optional, Pattern.fits_exponent]
  cases s with
  | nil => simp [exponentOf?]
  | cons mark t =>
    simp only [exponentOf?]
    constructor
    · intro h
      split at h
      · rename_i hmark
        split at h
        · cases h
        · rename_i hdigits
          simp only [Bool.or_eq_true, List.isEmpty_iff, Bool.not_eq_true', not_or,
            Bool.not_eq_false, List.all_eq_true] at hdigits
          obtain ⟨sign, hsplit, hsign⟩ := exists_sign t
          refine .inl ⟨mark, sign, (takeSign t).2, by rw [← hsplit], by simpa using hmark, hsign,
            hdigits⟩
      · cases h
    · rintro (⟨mark', sign, digits, h, hmark, hsign, hne, hdigits⟩ | h)
      · obtain ⟨rfl, rfl⟩ := List.cons.inj h
        have hstrip : (takeSign (sign ++ digits)).2 = digits := by
          refine takeSign_append hsign ?_
          have := head_of_digits hne hdigits []
          rwa [List.append_nil] at this
        rw [if_pos (by simpa using hmark), hstrip, if_neg]
        · rfl
        · simpa [hne] using hdigits
      · cases h

/-- Every text is some digits and a text that does not go on with one. -/
theorem exists_digits (s : List Char) :
    ∃ digits tail, s = digits ++ tail ∧ (∀ c ∈ digits, isDigit c = true)
      ∧ ∀ c, tail.head? = some c → isDigit c = false := by
  refine ⟨s.takeWhile isDigit, s.dropWhile isDigit, List.takeWhile_append_dropWhile.symm,
    fun c hc => List.mem_takeWhile_imp hc, ?_⟩
  intro c hc
  have hend := List.head?_dropWhile_not isDigit s
  rw [hc] at hend
  simpa using hend

/-- A numeral without a point, behind its sign. -/
theorem isNumeral_whole (hs : (takeSign s).2 = whole ++ tail)
    (hwhole : ∀ c ∈ whole, isDigit c = true)
    (htail : ∀ c, tail.head? = some c → isDigit c = false ∧ c ≠ '.') :
    isNumeral s = (!whole.isEmpty && (exponentOf? tail).isSome) := by
  obtain ⟨htake, hdrop⟩ := digits_append hwhole fun c hc => (htail c hc).1
  rw [isNumeral, Numeral.ofText?]
  generalize takeSign s = signed at hs ⊢
  obtain ⟨negative, body⟩ := signed
  simp only at hs
  simp only [hs, htake, hdrop]
  split
  · exact absurd rfl (htail _ rfl).2
  · cases whole.isEmpty <;> simp

/-- A numeral with a point, behind its sign. -/
theorem isNumeral_point (hs : (takeSign s).2 = whole ++ '.' :: (fraction ++ tail))
    (hwhole : ∀ c ∈ whole, isDigit c = true) (hfraction : ∀ c ∈ fraction, isDigit c = true)
    (htail : ∀ c, tail.head? = some c → isDigit c = false) :
    isNumeral s = (!(whole.isEmpty && fraction.isEmpty) && (exponentOf? tail).isSome) := by
  obtain ⟨htake, hdrop⟩ := digits_append hwhole (t := '.' :: (fraction ++ tail))
    fun c hc => by obtain rfl := Option.some.inj hc; decide
  obtain ⟨htake', hdrop'⟩ := digits_append hfraction htail
  rw [isNumeral, Numeral.ofText?]
  generalize takeSign s = signed at hs ⊢
  obtain ⟨negative, body⟩ := signed
  simp only at hs
  simp only [hs, htake, hdrop, htake', hdrop']
  cases whole.isEmpty && fraction.isEmpty <;> simp

/-- Behind a mantissa stands an exponent or nothing, which neither goes on with digits nor
    with a point. -/
theorem head_of_exponent {before : Option Char} {rest : List Char}
    (h : (Pattern.optional .exponent).Fits before tail rest) :
    ∀ c, tail.head? = some c → isDigit c = false ∧ c ≠ '.' := by
  rw [Pattern.fits_optional, Pattern.fits_exponent] at h
  intro c hc
  obtain ⟨mark, sign, digits, rfl, hmark, _⟩ | rfl := h
  · obtain rfl := Option.some.inj hc
    rcases hmark with rfl | rfl <;> decide
  · cases hc

/-- What fits the pattern is a numeral. -/
theorem isNumeral_of_fits {before : Option Char} {rest : List Char}
    (h : Pattern.numeral.Fits before s rest) : isNumeral s = true := by
  simp only [Pattern.numeral, Pattern.Fits, Pattern.fits_sign] at h
  obtain ⟨sign, _, rfl, hsign, mantissa, tail, rfl, hmantissa, htail⟩ := h
  have hhead := head_of_exponent htail
  have hexponent := (exponentOf?_isSome_iff _ _).mpr htail
  obtain ⟨hne, hdigits⟩ | ⟨whole, fraction, rfl, hne, hwhole, hfraction⟩ :=
    Pattern.fits_mantissa.mp hmantissa
  · rw [isNumeral_whole (takeSign_append hsign (head_of_digits hne hdigits tail)) hdigits hhead,
      hexponent]
    simpa using hne
  · have hbehind : (takeSign (sign ++ (whole ++ '.' :: fraction ++ tail))).2
        = whole ++ '.' :: (fraction ++ tail) := by
      rw [takeSign_append hsign, List.append_assoc, List.cons_append]
      by_cases hnil : whole = []
      · subst hnil
        rintro _ ⟨⟩
        decide
      · rw [List.append_assoc]
        exact head_of_digits hnil hwhole _
    rw [isNumeral_point hbehind hwhole hfraction fun c hc => (hhead c hc).1, hexponent]
    simpa [or_iff_not_imp_left] using hne

/-- A numeral fits the pattern, whatever is around it. -/
theorem fits_of_isNumeral (h : isNumeral s = true) (before : Option Char) (rest : List Char) :
    Pattern.numeral.Fits before s rest := by
  simp only [Pattern.numeral, Pattern.Fits, Pattern.fits_sign]
  obtain ⟨sign, hsplit, hsign⟩ := exists_sign s
  obtain ⟨whole, tail, hbody, hwhole, htail⟩ := exists_digits (takeSign s).2
  -- The digits at the front are all of the mantissa, or a point follows them.
  by_cases hpoint : tail.head? = some '.'
  · obtain ⟨after, rfl⟩ := List.head?_eq_some_iff.mp hpoint
    obtain ⟨fraction, tail, rfl, hfraction, htail⟩ := exists_digits after
    rw [isNumeral_point hbody hwhole hfraction htail, Bool.and_eq_true] at h
    obtain ⟨hne, hexponent⟩ := h
    refine ⟨sign, _, hsplit, hsign, whole ++ '.' :: fraction, tail, ?_,
      Pattern.fits_mantissa.mpr (.inr ⟨whole, fraction, rfl, ?_, hwhole, hfraction⟩),
      (exponentOf?_isSome_iff _ _).mp hexponent⟩
    · rw [hbody, List.append_assoc, List.cons_append]
    · simpa [or_iff_not_imp_left] using hne
  · rw [isNumeral_whole hbody hwhole fun c hc => ⟨htail c hc, by rintro rfl; exact hpoint hc⟩,
      Bool.and_eq_true] at h
    obtain ⟨hne, hexponent⟩ := h
    exact ⟨sign, _, hsplit, hsign, whole, tail, hbody,
      Pattern.fits_mantissa.mpr (.inl ⟨by simpa using hne, hwhole⟩),
      (exponentOf?_isSome_iff _ _).mp hexponent⟩

/-- The numerals are the texts that the pattern fits, around and behind whatever they stand. -/
theorem fits_numeral_iff (before : Option Char) (rest : List Char) :
    Pattern.numeral.Fits before s rest ↔ isNumeral s = true :=
  ⟨isNumeral_of_fits, fun h => fits_of_isNumeral h before rest⟩

end Double

/-! ## Keywords -/

/-- The words that a kind of keyword stands for. -/
def Kind.spellings : Kind → List String
  | .definitionStart => ["("]
  | .definitionEnd => [")"]
  | .blockOpen => ["["]
  | .blockClose => ["]"]
  | .combinator => ["map", "fold", "scan"]
  | .test => ["ifeq", "ifne", "ifgt", "iflt"]
  | .alternative => ["else"]
  | .testEnd => ["fi"]
  | .store => ["sto"]
  | .fetch => ["rcl"]
  | .number | .symbol | .word | .foreign => []

/-- The kinds of keywords. -/
def keywordKinds : List Kind :=
  [.definitionStart, .definitionEnd, .blockOpen, .blockClose, .combinator, .test, .alternative,
    .testEnd, .store, .fetch]

theorem keywordKind?_eq_find? (s : String) :
    keywordKind? s = keywordKinds.find? fun kind => decide (s ∈ kind.spellings) := by
  unfold keywordKind?
  split
  case h_16 => simp_all [keywordKinds, Kind.spellings]
  all_goals rfl

theorem keywordKind?_eq_some_iff {s : String} {kind : Kind} :
    keywordKind? s = some kind ↔ s ∈ kind.spellings := by
  constructor
  · intro h
    rw [keywordKind?_eq_find?] at h
    simpa using List.find?_some h
  · have hspelled : ∀ word ∈ kind.spellings, keywordKind? word = some kind := by
      cases kind <;> decide
    exact hspelled s

/-- No keyword contains a blank. -/
theorem isRun_of_mem_spellings {r : List Char} {kind : Kind}
    (h : String.ofList r ∈ kind.spellings) : IsRun r := by
  have hsolid : ∀ word ∈ kind.spellings, IsRun word.toList := by
    cases kind <;> decide
  simpa using hsolid _ h

theorem isBlank_of_isDigit {c : Char} (h : isDigit c = true) : isBlank c = false := by
  have hpadding := (isDigit_solid h).1
  simp only [isPadding, Bool.or_eq_false_iff] at hpadding
  -- The information separators are blanks that a number may not stand between.
  have hseparator : ¬(28 ≤ c.toNat ∧ c.toNat ≤ 31) := by
    rintro ⟨hlow, hhigh⟩
    simp only [isDigit, digitValue?] at h
    rw [if_pos (by omega), if_neg (by omega)] at h
    cases h
  simp only [isBlank, hpadding.2, Bool.or_false]
  simp only [Bool.and_eq_false_iff, decide_eq_false_iff_not, Bool.or_eq_false_iff] at hpadding ⊢
  omega

/-- No numeral contains a blank. -/
theorem isRun_of_isNumeral {r : List Char} (h : Double.isNumeral r = true) : IsRun r := by
  intro c hc
  have hchar := List.all_eq_true.mp (Double.all_of_isNumeral h) c hc
  simp only [Double.isNumeralChar, Bool.or_eq_true, decide_eq_true_eq] at hchar
  rcases hchar with ((((hdigit | rfl) | rfl) | rfl) | rfl) | rfl
  · exact isBlank_of_isDigit hdigit
  all_goals decide

namespace Pattern

variable {P Q : Pattern} {before : Option Char} {c : Char} {s r t : List Char}

/-! ## First ways of composed patterns -/

theorem ways_seq (P Q : Pattern) (before : Option Char) (s : List Char) :
    (seq P Q).ways before s
      = (P.ways before s).flatMap fun w =>
          (Q.ways (lastOf before w.1) w.2).map fun v => (w.1 ++ v.1, v.2) := rfl

theorem first?_seq_none (h : P.first? before s = none) : (seq P Q).first? before s = none := by
  rw [first?, List.head?_eq_none_iff] at h
  rw [first?, ways, h]
  rfl

theorem first?_one_seq (p : Char → Bool) :
    (seq (.one p) Q).first? before (c :: s)
      = if p c then (Q.first? (some c) s).map fun w => (c :: w.1, w.2) else none := by
  simp only [first?, ways]
  by_cases hc : p c = true
  · simp only [if_pos hc, List.flatMap_singleton, List.head?_map]
    rfl
  · simp only [if_neg hc, List.flatMap_nil, List.head?_nil]

/-! ## The terminals -/

/-- A closing bracket that stands alone. -/
def closer : Pattern := .seq (.unlessBehind isInk) (alone (.one (· = '>')))

/-- What closes a comment: as few characters as there can be, and the bracket. -/
def closing : Pattern := .seq (.few fun _ => true) closer

/-- All that is left of the text. -/
def toEnd : Pattern := .seq (.many fun _ => true) .atEnd

/-- A comment that is closed, or that goes on to the end of the text. -/
def comment : Pattern := .seq (alone (.one (· = '<'))) (.either closing toEnd)

def keyword (kind : Kind) : Pattern := alone (.oneOf kind.spellings)

/-- A quote and at least one more character. -/
def symbol : Pattern := .seq (.one (· = singleQuote)) (.atLeastOne isInk)

end Pattern

/-- A terminal, and the kind of its words, if it is for words. -/
structure Terminal where
  kind : Option Kind
  pattern : Pattern

/-- The terminals, in the order in which they are tried. -/
def terminals : List Terminal :=
  ⟨none, .comment⟩ :: keywordKinds.map (fun kind => ⟨some kind, .keyword kind⟩)
    ++ [⟨some .number, .alone .numeral⟩, ⟨some .symbol, .symbol⟩,
      ⟨some .word, .atLeastOne isInk⟩, ⟨none, .atLeastOne isSkippable⟩]

/-- The way in which a terminal matches behind a character and in front of a text, with the
    kind of its words. -/
def Terminal.match? (x : Terminal) (before : Option Char) (s : List Char) :
    Option (Option Kind × Way) :=
  (x.pattern.first? before s).map fun w => (x.kind, w)

/-- The first terminal that matches behind a character and in front of a text, by its kind,
    and the way in which it does. -/
def firstMatch (before : Option Char) (s : List Char) : Option (Option Kind × Way) :=
  terminals.findSome? fun x => x.match? before s

/-! ## Runs and terminals -/

section

variable {before : Option Char} {r s t : List Char}

theorem first?_keyword (hr : IsRun r) (ht : EndsRun t) (kind : Kind) :
    (Pattern.keyword kind).first? before (r ++ t)
      = if String.ofList r ∈ kind.spellings then some (r, t) else none := by
  have hfits : (Pattern.oneOf kind.spellings).Fits before r t
      ↔ decide (String.ofList r ∈ kind.spellings) = true := by
    rw [Pattern.fits_oneOf, decide_eq_true_eq]
  rw [Pattern.keyword, Pattern.first?_alone
    (fun _ _ hfits => isRun_of_mem_spellings (Pattern.fits_oneOf.mp hfits)) hr ht hfits]
  simp only [decide_eq_true_eq]

theorem first?_numeral (hr : IsRun r) (ht : EndsRun t) :
    (Pattern.alone .numeral).first? before (r ++ t)
      = if Double.isNumeral r then some (r, t) else none :=
  Pattern.first?_alone
    (fun _ _ hfits => isRun_of_isNumeral ((Double.fits_numeral_iff _ _).mp hfits)) hr ht
    (Double.fits_numeral_iff _ _)

/-- At most one kind of keyword has a given run among its words. -/
theorem findSome?_keyword (hr : IsRun r) (ht : EndsRun t) (kinds : List Kind) :
    (kinds.map fun kind => Terminal.mk (some kind) (.keyword kind)).findSome?
        (fun x => x.match? before (r ++ t))
      = (kinds.find? fun kind => decide (String.ofList r ∈ kind.spellings)).map
          fun kind => (some kind, r, t) := by
  induction kinds with
  | nil => rfl
  | cons kind kinds ih =>
    rw [List.map_cons, List.findSome?_cons, List.find?_cons, ih, Terminal.match?,
      first?_keyword hr ht]
    by_cases h : String.ofList r ∈ kind.spellings <;> simp [h]

/-- A bracket that stands alone matches itself where the run ends behind it. -/
theorem ways_bracket (bracket c : Char) (s : List Char) :
    (Pattern.alone (.one (· = bracket))).ways before (c :: s)
      = if c = bracket && s.head?.all isBlank then [([c], s)] else [] := by
  have hs : s.head?.any isInk = !s.head?.all isBlank := by cases s <;> simp [isInk]
  simp only [Pattern.alone, Pattern.ways]
  by_cases hc : c = bracket <;> by_cases hends : s.head?.all isBlank = true <;>
    simp [hc, hs, hends]

/-- No comment starts at a run that is more than its bracket. -/
theorem first?_comment_none (hr : IsRun r) (ht : EndsRun t) (hopens : r ≠ ['<']) :
    Pattern.comment.first? before (r ++ t) = none := by
  apply Pattern.first?_seq_none
  rw [Pattern.first?]
  cases htext : r ++ t with
  | nil => rfl
  | cons c s =>
    rw [ways_bracket, if_neg, List.head?_nil]
    simp only [Bool.and_eq_true, decide_eq_true_eq]
    rintro ⟨rfl, hends⟩
    have hbracket : IsRun ['<'] := by decide
    exact hopens (run_unique hr ht hbracket hends htext).1

/-- All of a run is ink, and nothing behind it. -/
theorem first?_ink (before : Option Char) (hr : IsRun r) (ht : EndsRun t) :
    (Pattern.atLeastOne isInk).first? before (r ++ t)
      = if r = [] then none else some (r, t) := by
  rw [Pattern.first?_atLeastOne, takeWhile_isInk hr ht, dropWhile_isInk hr ht]
  cases r with
  | nil => rw [List.nil_append, endsRun_iff.mp ht, if_neg (by simp), if_pos rfl]
  | cons c r =>
    have hc : isInk c = true := IsRun.isInk hr c (List.mem_cons_self ..)
    simp [hc]

/-- A symbol is a run with a quote in front of at least one more character. -/
theorem first?_symbol {c : Char} (hr : IsRun r) (ht : EndsRun t) :
    Pattern.symbol.first? before (c :: (r ++ t))
      = if c = singleQuote ∧ r ≠ [] then some (c :: r, t) else none := by
  rw [Pattern.symbol, Pattern.first?_one_seq, first?_ink _ hr ht]
  by_cases hc : c = singleQuote <;> by_cases hnil : r = [] <;> simp [hc, hnil]

/-- Where no comment starts, a keyword is taken, or else a numeral, or else what comes last. -/
theorem firstMatch_of_run (before : Option Char) (hr : IsRun r) (ht : EndsRun t)
    (hopens : r ≠ ['<']) :
    firstMatch before (r ++ t)
      = ((keywordKind? (String.ofList r)).map fun kind => (some kind, r, t)).or
          ((if Double.isNumeral r then some (some .number, r, t) else none).or
            ([⟨some .symbol, .symbol⟩, ⟨some .word, .atLeastOne isInk⟩,
              ⟨none, .atLeastOne isSkippable⟩].findSome?
                fun x : Terminal => x.match? before (r ++ t))) := by
  have hcomment : Terminal.match? ⟨none, .comment⟩ before (r ++ t) = none := by
    rw [Terminal.match?, first?_comment_none hr ht hopens]
    rfl
  rw [firstMatch, terminals, List.cons_append, List.findSome?_cons, hcomment,
    List.findSome?_append, findSome?_keyword hr ht, ← keywordKind?_eq_find?, List.findSome?_cons,
    Terminal.match?, first?_numeral hr ht]
  cases Double.isNumeral r <;> rfl

/-- A run outside of comments is taken as a whole, and its kind is that of the run. -/
theorem firstMatch_run (hr : IsRun r) (hne : r ≠ []) (ht : EndsRun t) (hopens : r ≠ ['<']) :
    firstMatch before (r ++ t) = some (some (kindOf r), r, t) := by
  rw [firstMatch_of_run before hr ht hopens]
  unfold kindOf
  cases hkeyword : keywordKind? (String.ofList r) with
  | some kind => rfl
  | none =>
    by_cases hnumeral : Double.isNumeral r = true
    · simp only [if_pos hnumeral]
      rfl
    · -- A word is what nothing else is, and a quote alone is one too.
      simp only [if_neg hnumeral, List.findSome?_cons, Terminal.match?, first?_ink _ hr ht, if_neg hne]
      obtain ⟨c, r, rfl⟩ := List.exists_cons_of_ne_nil hne
      rw [List.cons_append, first?_symbol (List.forall_mem_cons.mp hr).2 ht]
      cases r with
      | nil => simp
      | cons d r => by_cases hc : c = singleQuote <;> simp [hc]

/-- In front of a blank only blanks match. -/
theorem firstMatch_blank {b : Char} (hb : isBlank b = true) :
    firstMatch before (b :: s)
      = if isSkippable b then
          some (none, (b :: s).takeWhile isSkippable, (b :: s).dropWhile isSkippable)
        else none := by
  have hends := endsRun_cons hb s
  have hempty := firstMatch_of_run before (r := []) nofun hends nofun
  have hink := first?_ink before (r := []) nofun hends
  have hquote : Pattern.symbol.first? before (b :: s) = none := by
    rw [Pattern.symbol, Pattern.first?_one_seq, if_neg]
    rw [decide_eq_true_eq]
    rintro rfl
    cases hb
  have hkeyword : keywordKind? (String.ofList []) = none := rfl
  have hnumeral : Double.isNumeral [] = false := rfl
  simp only [List.nil_append] at hempty hink
  rw [hempty, hkeyword, hnumeral]
  simp only [List.findSome?_cons, Terminal.match?, hquote, hink, Pattern.first?_atLeastOne]
  cases hskip : isSkippable b <;> simp [hskip]

/-! ## Comments -/

theorem ways_closer (c : Char) (s : List Char) :
    Pattern.closer.ways before (c :: s)
      = if before.all isBlank && (c = '>' && s.head?.all isBlank) then [([c], s)] else [] := by
  have hbefore : before.any isInk = !before.all isBlank := by cases before <;> simp [isInk]
  rw [Pattern.closer, Pattern.ways, Pattern.ways, hbefore]
  by_cases hfresh : before.all isBlank = true
  · simp [hfresh, lastOf, ways_bracket]
  · simp [hfresh]

theorem ways_closing_nil : Pattern.closing.ways before [] = [] := by
  simp [Pattern.closing, Pattern.closer, Pattern.alone, Pattern.ways, manyWays]

/-- A comment is closed here, or else somewhere behind the next character. -/
theorem ways_closing_cons (c : Char) (s : List Char) :
    Pattern.closing.ways before (c :: s)
      = (if before.all isBlank && (c = '>' && s.head?.all isBlank) then [([c], s)] else [])
        ++ (Pattern.closing.ways (some c) s).map fun w => (c :: w.1, w.2) := by
  have hfew : (Pattern.few fun _ => true).ways before (c :: s)
      = ([], c :: s)
        :: ((Pattern.few fun _ => true).ways (some c) s).map fun w => (c :: w.1, w.2) := by
    simp [Pattern.ways, manyWays]
  have hlast : ∀ piece, lastOf before (c :: piece) = lastOf (some c) piece := by
    intro piece
    rw [lastOf, lastOf, List.getLast?_cons]
    cases piece.getLast? <;> rfl
  have hhere : ∀ ways : List Way, (ways.map fun v => ([] ++ v.1, v.2)) = ways := List.map_id
  rw [← ways_closer]
  rw [Pattern.closing, Pattern.ways_seq, Pattern.ways_seq, hfew, List.flatMap_cons, hhere]
  congr 1
  simp only [List.flatMap_map, List.map_flatMap, List.map_map, hlast]
  rfl

/-- What is left behind a comment is what follows the first bracket that can close it. -/
theorem skipComment_eq_closing (before : Option Char) (p : Position) (s : List Char) :
    (skipComment (before.all isBlank) p s).2
      = ((Pattern.closing.first? before s).map Prod.snd).getD [] := by
  -- Both try to close the comment here, and otherwise go on behind the next character.
  induction s generalizing before p with
  | nil =>
    rw [Pattern.first?, ways_closing_nil]
    rfl
  | cons c s ih =>
    rw [Pattern.first?, ways_closing_cons, skipComment, Bool.and_assoc]
    split
    · rfl
    · have hrest := ih (some c) (p.after c)
      rw [Option.all_some] at hrest
      rw [hrest, List.nil_append, List.head?_map, Option.map_map]
      rfl

theorem first?_toEnd (before : Option Char) (t : List Char) :
    Pattern.toEnd.first? before t = some (t, []) := by
  have hall := head?_manyWays (fun _ => true) t
  rw [List.takeWhile_eq_self_iff.mpr fun _ _ => rfl,
    List.dropWhile_eq_nil_iff.mpr fun _ _ => rfl] at hall
  obtain ⟨shorter, hways⟩ := List.head?_eq_some_iff.mp hall
  rw [Pattern.first?, Pattern.toEnd, Pattern.ways_seq, Pattern.ways, hways]
  simp [Pattern.ways]

/-- A bracket that stands alone starts a comment, and what is left is what is left behind
    the comment. -/
theorem firstMatch_comment (before : Option Char) (p : Position) (ht : EndsRun t) :
    ∃ piece, firstMatch before ('<' :: t) = some (none, piece, (skipComment false p t).2) := by
  have hstart : (Pattern.alone (.one (· = '<'))).ways before ('<' :: t) = [(['<'], t)] := by
    rw [ways_bracket, if_pos (by simpa [EndsRun] using ht)]
  have hskip : (skipComment false p t).2
      = ((Pattern.closing.first? (some '<') t).map Prod.snd).getD [] :=
    skipComment_eq_closing (some '<') p t
  have hfirst : Pattern.comment.first? before ('<' :: t)
      = ((Pattern.closing.first? (some '<') t).or (some (t, []))).map
          fun w => (['<'] ++ w.1, w.2) := by
    rw [Pattern.comment, Pattern.first?, Pattern.ways_seq, hstart, List.flatMap_singleton,
      List.head?_map, Pattern.ways, List.head?_append, ← first?_toEnd (some '<')]
    rfl
  rw [firstMatch, terminals, List.cons_append, List.findSome?_cons, Terminal.match?, hfirst, hskip]
  cases Pattern.closing.first? (some '<') t with
  | none => exact ⟨_, rfl⟩
  | some w => exact ⟨_, rfl⟩

end

/-! ## Reading terminal by terminal -/

/-- Reading a text terminal by terminal, behind a character: the words that are found on the way
    to the end or to a character where no terminal matches. -/
inductive Lexes : Option Char → List Char → List (Kind × List Char) → Option Char → Prop
  | done {before} : Lexes before [] [] none
  | word {before c s kind piece rest words stop}
      (found : firstMatch before (c :: s) = some (some kind, piece, rest))
      (more : Lexes (lastOf before piece) rest words stop) :
      Lexes before (c :: s) ((kind, piece) :: words) stop
  | skip {before c s piece rest words stop}
      (found : firstMatch before (c :: s) = some (none, piece, rest))
      (more : Lexes (lastOf before piece) rest words stop) :
      Lexes before (c :: s) words stop
  | stuck {before c s} (found : firstMatch before (c :: s) = none) :
      Lexes before (c :: s) [] (some c)

theorem Lexes.of_word {before : Option Char} {s : List Char} {kind : Kind} {piece rest : List Char}
    {words : List (Kind × List Char)} {stop : Option Char} (hne : s ≠ [])
    (found : firstMatch before s = some (some kind, piece, rest))
    (more : Lexes (lastOf before piece) rest words stop) :
    Lexes before s ((kind, piece) :: words) stop := by
  obtain ⟨c, s, rfl⟩ := List.exists_cons_of_ne_nil hne
  exact .word found more

/-- There is one way to read a text. -/
theorem Lexes.unique {before : Option Char} {s : List Char} {words words' : List (Kind × List Char)}
    {stop stop' : Option Char} (h : Lexes before s words stop) (h' : Lexes before s words' stop') :
    words = words' ∧ stop = stop' := by
  -- At each place the terminals have one match, which says how the text is read there.
  induction h generalizing words' with
  | done =>
    cases h'
    exact ⟨rfl, rfl⟩
  | word found _ ih =>
    cases h' with
    | word found' more' =>
      cases found.symm.trans found'
      obtain ⟨rfl, rfl⟩ := ih more'
      exact ⟨rfl, rfl⟩
    | skip found' _ => cases found.symm.trans found'
    | stuck found' => cases found.symm.trans found'
  | skip found _ ih =>
    cases h' with
    | word found' _ => cases found.symm.trans found'
    | skip found' more' =>
      cases found.symm.trans found'
      exact ih more'
    | stuck found' => cases found.symm.trans found'
  | stuck found =>
    cases h' with
    | word found' _ => cases found.symm.trans found'
    | skip found' _ => cases found.symm.trans found'
    | stuck _ => exact ⟨rfl, rfl⟩

/-- Skippable blanks are passed over, however many there are. -/
theorem scanFrom_dropWhile (p : Position) (s : List Char) :
    ∃ q, scanFrom p s = scanFrom q (s.dropWhile isSkippable) := by
  induction s generalizing p with
  | nil => exact ⟨p, rfl⟩
  | cons c s ih =>
    by_cases hc : isSkippable c = true
    · obtain ⟨q, hq⟩ := ih (p.after c)
      refine ⟨q, ?_⟩
      rw [scanFrom, if_pos hc, hq, List.dropWhile_cons_of_pos hc]
    · exact ⟨p, by rw [List.dropWhile_cons_of_neg hc]⟩

/-- A word with its kind. -/
def Lexeme.pair (x : Lexeme) : Kind × List Char := (x.kind, x.text.toList)

/-- Scanning reads a text terminal by terminal. -/
theorem lexes_scanFrom (before : Option Char) (p : Position) (s : List Char) :
    Lexes before s ((scanFrom p s).lexemes.map Lexeme.pair) ((scanFrom p s).stray.map Stray.char) := by
  induction s using scanInduction generalizing before p with
  | nil =>
    rw [scanFrom]
    exact .done
  | blank b s hb ih =>
    by_cases hskip : isSkippable b = true
    · -- All blanks in a row are skipped at once.
      obtain ⟨q, hq⟩ := scanFrom_dropWhile p (b :: s)
      have hfound : firstMatch before (b :: s) = _ := firstMatch_blank hb
      rw [if_pos hskip, List.dropWhile_cons_of_pos hskip] at hfound
      rw [hq, List.dropWhile_cons_of_pos hskip]
      exact .skip hfound (ih _ (List.dropWhile_suffix isSkippable).length_le _ _)
    · rw [scanFrom, if_neg hskip, if_pos hb]
      exact .stuck (by rw [firstMatch_blank hb, if_neg hskip])
  | word r t hr hne hopens ht ih =>
    have hword : Lexeme.pair ⟨kindOf r, String.ofList r, p.line, p.column⟩ = (kindOf r, r) := by
      rw [Lexeme.pair, String.toList_ofList]
    rw [scanFrom_word hr hne hopens ht, List.map_cons, hword]
    exact .of_word (by simp [hne]) (firstMatch_run hr hne ht hopens) (ih _ _)
  | comment t ht ih =>
    obtain ⟨piece, hfound⟩ := firstMatch_comment before (p.after '<') ht
    rw [scanFrom_comment ht]
    exact .skip hfound (ih _ (skipComment_length false (p.after '<') t) _ _)

/-- What is found terminal by terminal is what scanning finds. -/
theorem lexes_iff_scan {source : String} {words : List (Kind × List Char)} {stop : Option Char} :
    Lexes none source.toList words stop
      ↔ words = (scan source).lexemes.map Lexeme.pair ∧ stop = (scan source).stray.map Stray.char := by
  constructor
  · exact fun h => h.unique (lexes_scanFrom none .start source.toList)
  · rintro ⟨rfl, rfl⟩
    exact lexes_scanFrom none .start source.toList

end StackCalc
