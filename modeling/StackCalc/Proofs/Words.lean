/-
  StackCalc.Proofs.Words

  What the words of a text look like, by their kinds.  The kind of a word depends on its
  text alone (`genuine_of_mem_scan`), so a keyword kind that stands for one word determines
  the text, a symbol starts with its quote, and a number can be read
  (`Double.read?_of_isNumeral`).
-/

import Mathlib.Data.List.DropRight
import StackCalc.Token.Lexer

namespace StackCalc

open StackCalc.Text

/-! ## Numerals can be read -/

namespace Text

/-- No digit of any script is a blank. -/
theorem isWideBlank_digits : ∀ base ∈ digitZeros, ∀ d < 10, isWideBlank (base + d) = false := by
  decide +kernel

/-- Digits are neither padding nor underscores. -/
theorem isDigit_solid {c : Char} (h : isDigit c = true) : isPadding c = false ∧ c ≠ '_' := by
  obtain ⟨d, hd⟩ := Option.isSome_iff_exists.mp h
  simp only [digitValue?] at hd
  split at hd
  · rename_i hascii
    split at hd
    · rename_i hrange
      constructor
      · simp only [isPadding, isWideBlank]
        simp
        omega
      · rintro rfl
        exact absurd hrange.2 (by decide)
    · cases hd
  · -- Beyond ASCII a digit is at most nine behind a zero of the table.
    rename_i hwide
    obtain ⟨base, hfind, _⟩ := Option.map_eq_some_iff.mp hd
    have hrange := List.find?_some hfind
    simp only [Bool.and_eq_true, decide_eq_true_eq] at hrange
    have hblank := isWideBlank_digits base (List.mem_of_find?_eq_some hfind) (c.toNat - base)
      (by omega)
    rw [Nat.add_sub_cancel' hrange.1] at hblank
    constructor
    · simp only [isPadding, hblank]
      simp
      omega
    · rintro rfl
      exact hwide (by decide)

/-- A text without characters of a class at its ends is not trimmed. -/
theorem trim_eq_self {p : Char → Bool} {s : List Char} (h : ∀ c ∈ s, p c = false) :
    trim p s = s := by
  have hdrop : ∀ t : List Char, (∀ c ∈ t, p c = false) → t.dropWhile p = t := by
    intro t ht
    cases t with
    | nil => rfl
    | cons c rest => rw [List.dropWhile_cons, ht c (List.mem_cons_self ..)]; rfl
  rw [trim, hdrop s h, hdrop s.reverse (fun c hc => h c (List.mem_reverse.mp hc)),
    List.reverse_reverse]

/-- What is dropped at the end of a text stops at a character that is kept. -/
theorem rdropWhile_append_of_neg {p : Char → Bool} {c : Char} (h : ¬p c) (s t : List Char) :
    (s ++ c :: t).rdropWhile p = s ++ c :: t.rdropWhile p := by
  induction t using List.reverseRecOn with
  | nil => exact List.rdropWhile_concat_neg p s c h
  | append_singleton t d ih =>
    have hassoc : s ++ c :: (t ++ [d]) = (s ++ c :: t) ++ [d] := by simp
    rw [hassoc, List.rdropWhile_concat, List.rdropWhile_concat]
    split
    · exact ih
    · exact hassoc.symm

/-- A text without the blanks at its ends begins where the blanks in front end. -/
theorem head?_trim (p : Char → Bool) (s : List Char) :
    (trim p s).head? = (s.dropWhile p).head? := by
  have htrim : trim p s = (s.dropWhile p).rdropWhile p := rfl
  have hhead := List.head?_dropWhile_not p s
  rw [htrim]
  cases hs : s.dropWhile p with
  | nil => rfl
  | cons c rest =>
    rw [hs] at hhead
    have hc : ¬p c := by simpa using hhead
    have hstays := rdropWhile_append_of_neg hc [] rest
    rw [List.nil_append, List.nil_append] at hstays
    rw [hstays]
    rfl

end Text

namespace Double

/-- The characters that numerals are made of. -/
def isNumeralChar (c : Char) : Bool :=
  isDigit c || c = '+' || c = '-' || c = '.' || c = 'e' || c = 'E'

theorem isNumeralChar_solid {c : Char} (h : isNumeralChar c = true) :
    isPadding c = false ∧ c ≠ '_' := by
  simp only [isNumeralChar, Bool.or_eq_true, decide_eq_true_eq] at h
  rcases h with ((((h | rfl) | rfl) | rfl) | rfl) | rfl
  · exact isDigit_solid h
  all_goals decide

theorem all_isNumeralChar_of_digits {s : List Char} (h : s.all isDigit = true) :
    s.all isNumeralChar = true := by
  rw [List.all_eq_true] at h ⊢
  intro c hc
  rw [isNumeralChar, h c hc]
  rfl

theorem all_takeWhile_isDigit (s : List Char) :
    (s.takeWhile isDigit).all isNumeralChar = true :=
  all_isNumeralChar_of_digits (List.all_takeWhile ..)

/-- A sign is made of such characters. -/
theorem all_of_takeSign {s : List Char} (h : (takeSign s).2.all isNumeralChar = true) :
    s.all isNumeralChar = true := by
  unfold takeSign at h
  split at h
  · rw [List.all_cons, h]; rfl
  · rw [List.all_cons, h]; rfl
  · exact h

/-- An exponent is made of such characters. -/
theorem all_of_exponentOf? {s : List Char} {n : Int} (h : exponentOf? s = some n) :
    s.all isNumeralChar = true := by
  cases s with
  | nil => rfl
  | cons e rest =>
    simp only [exponentOf?] at h
    split at h
    · rename_i hletter
      split at h
      · cases h
      · rename_i hdigits
        simp only [Bool.or_eq_true, Bool.not_eq_true', not_or, Bool.not_eq_false] at hdigits
        have hrest := all_of_takeSign (all_isNumeralChar_of_digits hdigits.2)
        simp only [Bool.or_eq_true, decide_eq_true_eq] at hletter
        rw [List.all_cons, hrest]
        rcases hletter with rfl | rfl <;> decide
    · cases h

/-- A numeral is made of such characters. -/
theorem all_of_isNumeral {s : List Char} (h : isNumeral s = true) :
    s.all isNumeralChar = true := by
  obtain ⟨numeral, hnumeral⟩ := Option.isSome_iff_exists.mp h
  apply all_of_takeSign
  rw [← List.takeWhile_append_dropWhile (p := isDigit) (l := (takeSign s).2), List.all_append,
    all_takeWhile_isDigit, Bool.true_and]
  simp only [Numeral.ofText?] at hnumeral
  -- The digits before the point are done; what is left starts with a point or not.
  split at hnumeral
  · rename_i tail hpoint
    split at hnumeral
    · cases hnumeral
    · obtain ⟨exponent, hexponent, _⟩ := Option.map_eq_some_iff.mp hnumeral
      rw [hpoint, List.all_cons,
        ← List.takeWhile_append_dropWhile (p := isDigit) (l := tail), List.all_append,
        all_takeWhile_isDigit, all_of_exponentOf? hexponent]
      rfl
  · split at hnumeral
    · cases hnumeral
    · obtain ⟨exponent, hexponent, _⟩ := Option.map_eq_some_iff.mp hnumeral
      exact all_of_exponentOf? hexponent

/-- A text without underscores is left as it is. -/
theorem withoutUnderscores?_eq_some {s : List Char} (h : ∀ c ∈ s, c ≠ '_') (afterDigit : Bool) :
    withoutUnderscores? afterDigit s = some s := by
  induction s generalizing afterDigit with
  | nil => rfl
  | cons c rest ih =>
    have hc : c ≠ '_' := h c (List.mem_cons_self ..)
    rw [withoutUnderscores?, ih fun d hd => h d (List.mem_cons_of_mem _ hd)]
    · rfl
    · exact fun _ _ hunderscore _ => hc hunderscore
    · exact fun hunderscore _ => hc hunderscore

/-- Every numeral can be read, and it denotes its value. -/
theorem read?_of_isNumeral {s : List Char} (h : isNumeral s = true) :
    ∃ numeral, Numeral.ofText? s = some numeral ∧ read? s = some numeral.value := by
  obtain ⟨numeral, hnumeral⟩ := Option.isSome_iff_exists.mp h
  have hsolid : ∀ c ∈ s, isPadding c = false ∧ c ≠ '_' := fun c hc =>
    isNumeralChar_solid (List.all_eq_true.mp (all_of_isNumeral h) c hc)
  refine ⟨numeral, hnumeral, ?_⟩
  rw [read?, trim_eq_self fun c hc => (hsolid c hc).1,
    withoutUnderscores?_eq_some fun c hc => (hsolid c hc).2, Option.bind_some, hnumeral]

end Double

/-! ## Kinds and texts -/

/-- The text that a keyword kind with a single word stands for. -/
def Kind.spelling? : Kind → Option String
  | .definitionStart => some "("
  | .definitionEnd => some ")"
  | .blockOpen => some "["
  | .blockClose => some "]"
  | .alternative => some "else"
  | .testEnd => some "fi"
  | .store => some "sto"
  | .fetch => some "rcl"
  | _ => none

theorem spelling_of_keywordKind? {s text : String} {kind : Kind}
    (h : keywordKind? s = some kind) (hspelling : kind.spelling? = some text) : s = text := by
  unfold keywordKind? at h
  split at h
  case h_16 => cases h
  all_goals
    obtain rfl := Option.some.inj h
    first
    | exact Option.some.inj hspelling
    | cases hspelling

theorem keywordKind?_ne {s : String} {kind : Kind} (h : keywordKind? s = some kind) :
    kind ≠ .number ∧ kind ≠ .symbol := by
  unfold keywordKind? at h
  split at h
  case h_16 => cases h
  all_goals
    obtain rfl := Option.some.inj h
    exact ⟨by simp, by simp⟩

/-- Where the kind of a run comes from. -/
theorem kindOf_cases (run : List Char) :
    keywordKind? (String.ofList run) = some (kindOf run) ∨
      kindOf run = .number ∧ Double.isNumeral run = true ∨
      kindOf run = .symbol ∧ run.head? = some singleQuote ∨
      kindOf run = .word := by
  unfold kindOf
  split
  · rename_i hkeyword
    exact .inl hkeyword
  · split
    · rename_i hnumeral
      exact .inr (.inl ⟨rfl, hnumeral⟩)
    · split
      · split
        · rename_i hquote
          exact .inr (.inr (.inl ⟨rfl, congrArg some hquote⟩))
        · exact .inr (.inr (.inr rfl))
      · exact .inr (.inr (.inr rfl))

section

variable {s : String}

theorem text_of_kindOf {text : String} (h : (kindOf s.toList).spelling? = some text) :
    s = text := by
  obtain hkeyword | ⟨hkind, _⟩ | ⟨hkind, _⟩ | hkind := kindOf_cases s.toList
  · rw [String.ofList_toList] at hkeyword
    exact spelling_of_keywordKind? hkeyword h
  all_goals
    rw [hkind] at h
    cases h

theorem isNumeral_of_kindOf (h : kindOf s.toList = .number) : Double.isNumeral s.toList = true := by
  obtain hkeyword | ⟨_, hnumeral⟩ | ⟨hkind, _⟩ | hkind := kindOf_cases s.toList
  · exact absurd h (keywordKind?_ne hkeyword).1
  · exact hnumeral
  all_goals
    rw [hkind] at h
    cases h

/-- The quote in front of a symbol can be restored. -/
theorem quote_of_kindOf (h : kindOf s.toList = .symbol) :
    String.ofList (singleQuote :: s.toList.drop 1) = s := by
  obtain hkeyword | ⟨hkind, _⟩ | ⟨_, hquote⟩ | hkind := kindOf_cases s.toList
  · exact absurd h (keywordKind?_ne hkeyword).2
  · rw [hkind] at h
    cases h
  · obtain ⟨rest, hrest⟩ := List.head?_eq_some_iff.mp hquote
    rw [hrest, List.drop_one, List.tail_cons, ← hrest, String.ofList_toList]
  · rw [hkind] at h
    cases h

end

/-! ## Words of a text -/

/-- The kind of a lexeme is that of its text. -/
def Lexeme.Genuine (x : Lexeme) : Prop :=
  x.kind = kindOf x.text.toList

theorem genuine_of_mem_scanFrom {p : Position} {s : List Char} {x : Lexeme}
    (h : x ∈ (scanFrom p s).lexemes) : x.Genuine := by
  induction p, s using scanFrom.induct with
  | case1 p =>
    rw [scanFrom] at h
    cases h
  | case2 p c rest hskip ih =>
    rw [scanFrom, if_pos hskip] at h
    exact ih h
  | case3 p c rest hskip hblank =>
    rw [scanFrom, if_neg hskip, if_pos hblank] at h
    cases h
  | case4 p c rest hskip hblank run tail hcomment left ih =>
    rw [scanFrom, if_neg hskip, if_neg hblank, if_pos hcomment] at h
    exact ih h
  | case5 p c rest hskip hblank run tail hcomment ih =>
    rw [scanFrom, if_neg hskip, if_neg hblank, if_neg hcomment] at h
    cases h with
    | head =>
      show kindOf run = kindOf (String.ofList run).toList
      rw [String.toList_ofList]
    | tail _ h => exact ih h

/-- The kind of every word of a text depends on the word alone. -/
theorem genuine_of_mem_scan {source : String} {x : Lexeme} (h : x ∈ (scan source).lexemes) :
    x.Genuine :=
  genuine_of_mem_scanFrom h

end StackCalc
