/-
  StackCalc.Proofs.PlainTexts

  What is left of a text without its colour codes.  Nothing but codes is removed
  (`laced_stripped`), and a text stays as it is exactly if no part of it is a code
  (`stripped_eq_self_iff`).  But what stands around a removed code comes together, and the two
  may be a code then: this is so exactly for the texts with a broken code, one that other codes
  are put into (`isPlain_stripped_iff`).  The program's own codes break none, so the plain form
  of a stack has a code exactly if that of one of its texts has (`isPlain_showStack_iff`).
-/

import StackCalc.Display
import StackCalc.Proofs.Colours
import StackCalc.Proofs.FixedPlaces

namespace StackCalc
namespace Text
namespace Colour

variable {s t p parameters inside : List Char}

/-! ## Codes -/

/-- A colour code: the escape character, an opening bracket, digits and semicolons, and the
    letter m. -/
def IsCode (s : List Char) : Prop :=
  ∃ parameters, parameters.all isParameter = true ∧ s = escape :: '[' :: (parameters ++ ['m'])

/-- No part of the text is a colour code. -/
def IsPlain (s : List Char) : Prop := ∀ code, IsCode code → ¬code <:+: s

/-- Characters with any number of codes in front of them, between them and behind them. -/
inductive Laced : List Char → List Char → Prop
  | nil : Laced [] []
  | code {code s t : List Char} (isCode : IsCode code) (rest : Laced s t) : Laced s (code ++ t)
  | character (c : Char) {s t : List Char} (rest : Laced s t) : Laced (c :: s) (c :: t)

/-- A broken code: what would be a code but for the codes that are put into it. -/
def IsBroken (s : List Char) : Prop :=
  ∃ parameters inside, parameters.all isParameter = true ∧ Laced ('[' :: parameters) inside
    ∧ inside ≠ '[' :: parameters ∧ s = escape :: (inside ++ ['m'])

theorem final_not_mem (h : parameters.all isParameter = true) : 'm' ∉ '[' :: parameters := by
  intro hm
  rcases List.mem_cons.mp hm with hbracket | hparameter
  · exact absurd hbracket (by decide)
  · exact absurd (List.all_eq_true.mp h _ hparameter) (by decide)

theorem escape_not_mem (h : parameters.all isParameter = true) : escape ∉ '[' :: parameters := by
  intro hescape
  rcases List.mem_cons.mp hescape with hbracket | hparameter
  · exact absurd hbracket (by decide)
  · exact absurd (List.all_eq_true.mp h _ hparameter) (by decide)

/-- What follows the code that a text starts with. -/
theorem afterCode?_eq_some_iff : afterCode? s = some t ↔ ∃ code, IsCode code ∧ s = code ++ t := by
  constructor
  · intro h
    unfold afterCode? at h
    split at h
    · rename_i first rest
      split at h
      · rename_i hfirst
        split at h
        · rename_i tail hfinal
          cases h
          -- The parameters are what was dropped in front of the final letter.
          refine ⟨_, ⟨rest.takeWhile isParameter, List.all_takeWhile, rfl⟩, ?_⟩
          rw [hfirst, List.cons_append, List.cons_append, List.append_assoc, List.singleton_append,
            ← hfinal, List.takeWhile_append_dropWhile]
        · cases h
      · cases h
    · cases h
  · rintro ⟨code, ⟨parameters, hparameters, rfl⟩, rfl⟩
    have hbehind : (parameters ++ 'm' :: t).dropWhile isParameter = 'm' :: t := by
      rw [List.dropWhile_append_of_pos (List.all_eq_true.mp hparameters),
        List.dropWhile_cons_of_neg (by decide)]
    have hshape : escape :: '[' :: (parameters ++ ['m']) ++ t
        = escape :: '[' :: (parameters ++ 'm' :: t) := by simp
    rw [hshape]
    simp only [afterCode?, if_true, hbehind]

/-- A text without the final letter does not start with a code. -/
theorem afterCode?_of_not_mem (h : 'm' ∉ s) : afterCode? s = none := by
  rcases hafter : afterCode? s with _ | t
  · rfl
  · obtain ⟨code, ⟨parameters, -, rfl⟩, rfl⟩ := afterCode?_eq_some_iff.mp hafter
    exact absurd (by simp) h

/-! ## Plain texts -/

theorem isPlain_nil : IsPlain [] := by
  rintro code ⟨parameters, -, rfl⟩ h
  cases List.infix_nil.mp h

theorem isPlain_cons_iff {c : Char} :
    IsPlain (c :: s) ↔ afterCode? (c :: s) = none ∧ IsPlain s := by
  constructor
  · intro h
    constructor
    · rcases hafter : afterCode? (c :: s) with _ | t
      · rfl
      · obtain ⟨code, hcode, hshape⟩ := afterCode?_eq_some_iff.mp hafter
        exact absurd ⟨[], t, by simpa using hshape.symm⟩ (h code hcode)
    · intro code hcode hinfix
      exact h code hcode (List.infix_cons hinfix)
  · -- A code in the text starts with its first character or lies behind it.
    rintro ⟨hnone, hplain⟩ code hcode hinfix
    rcases List.infix_cons_iff.mp hinfix with ⟨t, ht⟩ | hinfix
    · rw [afterCode?_eq_some_iff.mpr ⟨code, hcode, ht.symm⟩] at hnone
      cases hnone
    · exact hplain code hcode hinfix

/-- A text in front of a break and the text from it on are plain by themselves. -/
theorem isPlain_append_iff {c : Char} (hc : IsBreak c) :
    IsPlain (s ++ c :: t) ↔ IsPlain s ∧ IsPlain (c :: t) := by
  induction s with
  | nil => exact ⟨fun h => ⟨isPlain_nil, h⟩, fun h => h.2⟩
  | cons first rest ih =>
    have hafter : afterCode? (first :: (rest ++ c :: t)) = none
        ↔ afterCode? (first :: rest) = none := by
      rw [← List.cons_append, afterCode?_append hc (List.cons_ne_nil _ _), Option.map_eq_none_iff]
    rw [List.cons_append, isPlain_cons_iff, isPlain_cons_iff, hafter, ih, and_assoc]

theorem isPlain_cons_of_ne {c : Char} (hc : c ≠ escape) : IsPlain (c :: s) ↔ IsPlain s := by
  rw [isPlain_cons_iff, afterCode?_of_ne hc]
  exact and_iff_right rfl

/-- A line and what follows it are plain by themselves. -/
theorem isPlain_line_iff : IsPlain (s ++ '\n' :: t) ↔ IsPlain s ∧ IsPlain t := by
  rw [isPlain_append_iff isBreak_lineEnd, isPlain_cons_of_ne (by decide)]

/-- Characters that are no escape character may stand in front of any text. -/
theorem isPlain_plain_append_iff (h : escape ∉ s) : IsPlain (s ++ t) ↔ IsPlain t := by
  induction s with
  | nil => rfl
  | cons c rest ih =>
    obtain ⟨hc, hrest⟩ := not_or.mp (mt List.mem_cons.mpr h)
    rw [List.cons_append, isPlain_cons_of_ne (Ne.symm hc), ih hrest]

theorem isPlain_of_not_mem (h : escape ∉ s) : IsPlain s := by
  have hplain := isPlain_plain_append_iff (t := []) h
  rw [List.append_nil] at hplain
  exact hplain.mpr isPlain_nil

/-! ## What is removed -/

theorem length_stripped_le (s : List Char) : (stripped s).length ≤ s.length := by
  induction s using stripped.induct with
  | case1 => rw [stripped]
  | case2 c rest tail htail ih =>
    have hshorter := afterCode?_length htail
    rw [stripped_code htail]
    omega
  | case3 c rest hnone ih =>
    rw [stripped_character hnone, List.length_cons, List.length_cons]
    omega

/-- The texts that stay as they are are the plain ones. -/
theorem stripped_eq_self_iff : stripped s = s ↔ IsPlain s := by
  induction s with
  | nil => exact iff_of_true (by rw [stripped]) isPlain_nil
  | cons c rest ih =>
    rw [isPlain_cons_iff]
    rcases hafter : afterCode? (c :: rest) with _ | tail
    · rw [stripped_character hafter, List.cons_inj_right, ih]
      exact (and_iff_right rfl).symm
    · -- Without the code in front the text is shorter.
      rw [stripped_code hafter]
      refine iff_of_false (fun hself => ?_) (fun h => Option.some_ne_none tail h.1)
      have hshorter := afterCode?_length hafter
      have hle := length_stripped_le tail
      rw [hself] at hle
      omega

/-- Nothing but codes is removed. -/
theorem laced_stripped (s : List Char) : Laced (stripped s) s := by
  induction s using stripped.induct with
  | case1 =>
    rw [stripped]
    exact .nil
  | case2 c rest tail htail ih =>
    obtain ⟨code, hcode, hshape⟩ := afterCode?_eq_some_iff.mp htail
    rw [stripped_code htail, hshape]
    exact .code hcode ih
  | case3 c rest hnone ih =>
    rw [stripped_character hnone]
    exact .character c ih

/-- Every character that is left stands in the text where no code starts, and what is left in
    front of it and behind it comes from the text in front of it and behind it. -/
theorem exists_of_stripped {c : Char} (h : stripped s = p ++ c :: t) :
    ∃ front behind, s = front ++ c :: behind ∧ Laced p front
      ∧ afterCode? (c :: behind) = none ∧ stripped behind = t := by
  -- On what the text starts with, which is a code, or a character that is left.
  induction s using stripped.induct generalizing p with
  | case1 =>
    rw [stripped] at h
    simp at h
  | case2 first rest tail htail ih =>
    obtain ⟨code, hcode, hshape⟩ := afterCode?_eq_some_iff.mp htail
    rw [stripped_code htail] at h
    obtain ⟨front, behind, rfl, hlaced, hnone, hbehind⟩ := ih h
    exact ⟨code ++ front, behind, by rw [hshape, List.append_assoc], .code hcode hlaced, hnone,
      hbehind⟩
  | case3 first rest hnone ih =>
    rw [stripped_character hnone] at h
    cases p with
    | nil =>
      obtain ⟨rfl, hbehind⟩ := List.cons.inj h
      exact ⟨[], rest, rfl, .nil, hnone, hbehind⟩
    | cons d p =>
      obtain ⟨rfl, hrest⟩ := List.cons.inj h
      obtain ⟨front, behind, rfl, hlaced, hnone', hbehind⟩ := ih hrest
      exact ⟨first :: front, behind, rfl, .character first hlaced, hnone', hbehind⟩

/-! ## Broken codes -/

/-- Codes between characters that start none are removed. -/
theorem Laced.stripped_append (h : Laced p s) (hp : escape ∉ p) (t : List Char) :
    stripped (s ++ t) = p ++ stripped t := by
  induction h with
  | nil => rfl
  | code hcode _ ih =>
    rw [List.append_assoc, stripped_code (afterCode?_eq_some_iff.mpr ⟨_, hcode, rfl⟩), ih hp]
  | character c _ ih =>
    obtain ⟨hc, hrest⟩ := not_or.mp (mt List.mem_cons.mpr hp)
    rw [List.cons_append, stripped_character (afterCode?_of_ne (Ne.symm hc) _), ih hrest,
      List.cons_append]

/-- Characters with codes between them are all there is, or some of them stand in front of the
    first code. -/
theorem Laced.eq_or_exists (h : Laced p s) :
    s = p ∨ ∃ before behind, before <+: p ∧ s = before ++ escape :: behind := by
  induction h with
  | nil => exact .inl rfl
  | code hcode _ _ =>
    -- The first code starts here, whatever follows it.
    obtain ⟨parameters, -, rfl⟩ := hcode
    exact .inr ⟨[], _, List.nil_prefix, rfl⟩
  | character c _ ih =>
    rcases ih with rfl | ⟨before, behind, hbefore, rfl⟩
    · exact .inl rfl
    · exact .inr ⟨c :: before, behind, List.cons_prefix_cons.mpr ⟨rfl, hbefore⟩, rfl⟩

/-- No code starts where a broken one does: the first code inside of it comes too early. -/
theorem afterCode?_broken (hparameters : parameters.all isParameter = true)
    (h : Laced ('[' :: parameters) inside) (hbroken : inside ≠ '[' :: parameters) (t : List Char) :
    afterCode? (escape :: (inside ++ t)) = none := by
  obtain ⟨before, behind, hbefore, rfl⟩ := h.eq_or_exists.resolve_left hbroken
  -- Up to the escape character of the first code inside there is no final letter.
  have hfinal : 'm' ∉ escape :: before := by
    intro hm
    rcases List.mem_cons.mp hm with hescape | hm
    · exact absurd hescape (by decide)
    · exact final_not_mem hparameters (hbefore.subset hm)
  have hshape : escape :: (before ++ escape :: behind ++ t)
      = (escape :: before) ++ escape :: (behind ++ t) := by simp
  rw [hshape, afterCode?_append isBreak_escape (List.cons_ne_nil _ _),
    afterCode?_of_not_mem hfinal, Option.map_none]

/-- What is left of a broken code is a code. -/
theorem isCode_of_broken (hparameters : parameters.all isParameter = true)
    (h : Laced ('[' :: parameters) inside) (hbroken : inside ≠ '[' :: parameters) (t : List Char) :
    stripped (escape :: (inside ++ 'm' :: t))
      = escape :: '[' :: (parameters ++ ['m']) ++ stripped t := by
  rw [stripped_character (afterCode?_broken hparameters h hbroken _),
    h.stripped_append (escape_not_mem hparameters),
    stripped_character (afterCode?_of_ne (by decide) t)]
  simp

/-- A text without its codes has a code exactly if one is broken in the text. -/
theorem isPlain_stripped_iff :
    IsPlain (stripped s) ↔ ∀ broken, IsBroken broken → ¬broken <:+: s := by
  constructor
  · rintro hplain broken ⟨parameters, inside, hparameters, hlaced, hbroken, rfl⟩
      ⟨before, behind, rfl⟩
    refine hplain (escape :: '[' :: (parameters ++ ['m'])) ⟨parameters, hparameters, rfl⟩ ?_
    have hshape : before ++ escape :: (inside ++ ['m']) ++ behind
        = before ++ escape :: (inside ++ 'm' :: behind) := by simp
    rw [hshape, Colour.stripped_append isBreak_escape, isCode_of_broken hparameters hlaced hbroken]
    exact ⟨stripped before, stripped behind, List.append_assoc ..⟩
  · rintro hnone code ⟨parameters, hparameters, rfl⟩ ⟨before, behind, hleft⟩
    -- The first character of the code that is left, and then its last one, in the text.
    have hfirst : stripped s = before ++ escape :: ('[' :: parameters ++ 'm' :: behind) := by
      rw [← hleft]
      simp
    obtain ⟨front, rest, rfl, -, hnocode, hrest⟩ := exists_of_stripped hfirst
    obtain ⟨inside, last, rfl, hlaced, -, -⟩ := exists_of_stripped hrest
    refine hnone (escape :: (inside ++ ['m'])) ⟨parameters, inside, hparameters, hlaced, ?_, rfl⟩
      ⟨front, last, by simp⟩
    -- With nothing in between it would be a code, but none starts at a character that is left.
    rintro rfl
    have hcode : afterCode? (escape :: ('[' :: parameters ++ 'm' :: last)) = some last :=
      afterCode?_eq_some_iff.mpr ⟨_, ⟨parameters, hparameters, rfl⟩, by simp⟩
    rw [hnocode] at hcode
    cases hcode

/-! ## Lines -/

theorem strip_eq_self {s : String} (h : escape ∉ s.toList) : strip s = s := by
  have hplain := strip_plain h ""
  rwa [strip_empty, String.append_empty] at hplain

/-- In front of the program's own codes those of a text are removed separately. -/
theorem strip_append_code (s : String) {parameters : String}
    (h : parameters.toList.all isParameter = true) (t : String) :
    strip (s ++ code parameters ++ t) = strip s ++ strip t := by
  have hcode : (code parameters).toList = escape :: '[' :: (parameters.toList ++ ['m']) := by
    rw [code, String.toList_append, String.toList_append, String.toList_ofList]
    rfl
  have hshape : (s ++ code parameters ++ t).toList
      = s.toList ++ escape :: ('[' :: (parameters.toList ++ ['m']) ++ t.toList) := by
    rw [String.toList_append, String.toList_append, hcode, List.append_assoc]
    rfl
  have hafter : afterCode? (escape :: ('[' :: (parameters.toList ++ ['m']) ++ t.toList))
      = some t.toList := afterCode?_eq_some_iff.mpr ⟨_, ⟨parameters.toList, h, rfl⟩, rfl⟩
  rw [strip, hshape, Colour.stripped_append isBreak_escape, stripped_code hafter,
    String.ofList_append, strip, strip]

/-- The colours of a text are removed, and the codes in the text separately. -/
theorem strip_paint {parameters : String} (h : parameters.toList.all isParameter = true)
    (s t : String) : strip (paint parameters s ++ t) = strip s ++ strip t := by
  have hnone : "0".toList.all isParameter = true := by decide
  rw [paint, reset, String.append_assoc, String.append_assoc, strip_code h, ← String.append_assoc,
    strip_append_code s hnone]

/-- Without their codes, whole lines and what follows them are plain by themselves. -/
theorem isPlain_strip_lines_iff {s : String} (h : IsLines s) (t : String) :
    IsPlain (strip (s ++ t)).toList ↔ IsPlain (strip s).toList ∧ IsPlain (strip t).toList := by
  rw [strip_lines h, String.toList_append]
  rcases h with rfl | ⟨line, rfl⟩
  · rw [strip_empty, String.toList_empty, List.nil_append]
    exact (and_iff_right isPlain_nil).symm
  · have hend : (strip (line ++ "\n")).toList = stripped line.toList ++ ['\n'] := by
      have hline : (line ++ "\n").toList = line.toList ++ '\n' :: [] := String.toList_append ..
      rw [strip, String.toList_ofList, hline, stripped_line, stripped]
    rw [hend, List.append_assoc, List.singleton_append, isPlain_line_iff, isPlain_line_iff]
    exact and_congr_left' (and_iff_left isPlain_nil).symm

theorem isPlain_strip_join_iff {lines : List String} (h : ∀ line ∈ lines, IsLines line) :
    IsPlain (strip (String.join lines)).toList
      ↔ ∀ line ∈ lines, IsPlain (strip line).toList := by
  induction lines with
  | nil =>
    rw [String.join_nil, strip_empty, String.toList_empty]
    exact iff_of_true isPlain_nil nofun
  | cons line rest ih =>
    obtain ⟨hline, hrest⟩ := List.forall_mem_cons.mp h
    rw [String.join_cons, isPlain_strip_lines_iff hline, ih hrest, List.forall_mem_cons]

end Colour
end Text

open Text Colour

/-! ## Stacks -/

variable {levels : Bool} {precision : Option Nat}

namespace Double

theorem mem_signed {negative : Bool} {s : List Char} {c : Char} (h : c ∈ signed negative s) :
    c = '-' ∨ c ∈ s := by
  cases negative with
  | false => exact .inr h
  | true => exact List.mem_cons.mp h

theorem mem_of_mem_trimmed {s : List Char} {c : Char} (h : c ∈ trimmed s) : c ∈ s := by
  have hpoints : trimmed s <+: withoutFinalZeros s := List.rdropWhile_prefix _ _
  have hzeros : withoutFinalZeros s <+: s := List.rdropWhile_prefix _ _
  exact hzeros.subset (hpoints.subset h)

theorem mem_fixed {places : Nat} {x : Float} {c : Char} (h : c ∈ fixed places x) :
    c.isDigit ∨ c ∈ ['-', '.'] := by
  obtain ⟨whole, fraction, -, hwhole, hfraction, -, -, hfixed⟩ := fixed_parts places x
  rw [hfixed] at h
  rcases mem_signed h with rfl | h
  · exact .inr (by simp)
  rcases List.mem_append.mp h with h | h
  · exact .inl (hwhole c h)
  · unfold Literal.fractionText at h
    split at h
    · cases h
    · rcases List.mem_cons.mp h with rfl | h
      · exact .inr (by simp)
      · exact .inl (hfraction c h)

end Double

/-- No code starts in a number. -/
theorem escape_not_mem_showNumber (precision : Option Nat) (x : Float) :
    escape ∉ (showNumber precision x).toList := by
  intro h
  have hdigit : ¬escape.isDigit := by decide
  cases hshape : Double.shape x with
  | nan =>
    simp only [showNumber, hshape] at h
    exact absurd h (by decide)
  | infinite negative =>
    simp only [showNumber, hshape] at h
    cases negative <;> exact absurd h (by decide)
  | finite negative mantissa exponent =>
    rw [Double.showNumber_eq hshape] at h
    split at h
    · rcases Double.mem_signed h with hsign | h
      · exact absurd hsign (by decide)
      · exact hdigit (Double.isDigit_of_mem_toDigits h)
    · cases precision with
      | none =>
        rcases Double.mem_shortestIn h with h | h
        · exact hdigit h
        · exact absurd h (by decide)
      | some places =>
        rcases Double.mem_fixed (Double.mem_of_mem_trimmed h) with h | h
        · exact hdigit h
        · exact absurd h (by decide)

theorem escape_not_mem_level (depth : Nat) :
    escape ∉ (alignRight 3 (toString depth) ++ ":").toList := by
  intro h
  rw [alignRight, String.toList_append, String.toList_append, String.toList_ofList] at h
  simp only [List.mem_append, List.mem_replicate] at h
  rcases h with (⟨-, hblank⟩ | hdigit) | hcolon
  · exact absurd hblank (by decide)
  · have hescape : ¬escape.isDigit := by decide
    rw [Nat.toString_eq_repr, Nat.toList_repr] at hdigit
    exact hescape (Double.isDigit_of_mem_toDigits hdigit)
  · exact absurd hcolon (by decide)

/-- A line of a stack without its codes: the level, and the cell without the codes in it. -/
theorem strip_stackLine (levels : Bool) (precision : Option Nat) (depth : Nat) (cell : Cell) :
    ∃ level, escape ∉ level.toList
      ∧ strip (stackLine levels precision depth cell)
        = level ++ (strip (cell.shown precision) ++ "\n") := by
  have hcolour : (if depth = 1 then "1;92" else "94").toList.all isParameter = true := by
    split <;> decide
  have hgrey : "90".toList.all isParameter = true := by decide
  have hend : strip "\n" = "\n" := by decide +kernel
  cases levels with
  | false =>
    refine ⟨"", by decide, ?_⟩
    simp only [stackLine, Bool.false_eq_true, if_false, String.empty_append]
    rw [strip_paint hcolour, hend]
  | true =>
    have hlevel := escape_not_mem_level depth
    refine ⟨alignRight 3 (toString depth) ++ ":" ++ " ", ?_, ?_⟩
    · rw [String.toList_append, List.mem_append]
      exact not_or.mpr ⟨hlevel, by decide⟩
    · have hblank : escape ∉ " ".toList := by decide
      have hself := strip_eq_self hlevel
      simp only [stackLine, if_true, String.append_assoc] at hself ⊢
      rw [strip_paint hgrey, strip_plain hblank, strip_paint hcolour, hend, hself]
      simp only [String.append_assoc]

theorem isPlain_stackLine_iff (levels : Bool) (precision : Option Nat) (depth : Nat)
    (cell : Cell) : IsPlain (strip (stackLine levels precision depth cell)).toList
      ↔ IsPlain (strip (cell.shown precision)).toList := by
  obtain ⟨level, hlevel, hline⟩ := strip_stackLine levels precision depth cell
  have hend : "\n".toList = ['\n'] := rfl
  rw [hline, String.toList_append, isPlain_plain_append_iff hlevel, String.toList_append, hend,
    isPlain_line_iff]
  exact and_iff_left isPlain_nil

theorem isLines_stackLine (levels : Bool) (precision : Option Nat) (depth : Nat) (cell : Cell) :
    IsLines (stackLine levels precision depth cell) := .inr ⟨_, rfl⟩

/-- The plain form of a stack is plain exactly if that of each of its texts is. -/
theorem isPlain_showStack_iff (levels : Bool) (precision : Option Nat) (stack : Stack) :
    IsPlain (strip (showStack levels precision stack)).toList
      ↔ ∀ text, Cell.text text ∈ stack → IsPlain (strip text).toList := by
  have hlines : ∀ line ∈ (stack.mapIdx fun i cell =>
      stackLine levels precision (i + 1) cell).reverse, IsLines line := by
    intro line hline
    obtain ⟨i, hi, rfl⟩ := List.mem_mapIdx.mp (List.mem_reverse.mp hline)
    exact isLines_stackLine ..
  rw [showStack, isPlain_strip_join_iff hlines]
  constructor
  · intro h text htext
    obtain ⟨i, hi, hcell⟩ := List.mem_iff_getElem.mp htext
    have hline := h _ (List.mem_reverse.mpr (List.mem_mapIdx.mpr ⟨i, hi, rfl⟩))
    rwa [isPlain_stackLine_iff, hcell] at hline
  · intro h line hline
    obtain ⟨i, hi, rfl⟩ := List.mem_mapIdx.mp (List.mem_reverse.mp hline)
    rw [isPlain_stackLine_iff]
    -- Only texts can have codes in them.
    rcases hcell : stack[i] with x | text
    · have hnumber := escape_not_mem_showNumber precision x
      rw [Cell.shown, strip_eq_self hnumber]
      exact isPlain_of_not_mem hnumber
    · exact h text (hcell ▸ List.getElem_mem hi)

/-! ## Plain output -/

theorem strip_strip_eq_iff (s : String) : strip (strip s) = strip s ↔ IsPlain (strip s).toList := by
  rw [← stripped_eq_self_iff, ← String.toList_inj]
  conv => lhs; lhs; rw [strip, String.toList_ofList]

theorem isPlain_strip_iff (s : String) :
    IsPlain (strip s).toList ↔ ∀ broken, IsBroken broken → ¬broken <:+: s.toList := by
  rw [strip, String.toList_ofList, isPlain_stripped_iff]

/-- What is left of a text when its colour codes are removed.  Nothing but codes is removed, and
    what is left has no code, so that nothing more is removed a second time, exactly if there is
    no broken code in the text: one that other codes are put into, which is a code without them.
    The plain form of a stack, however its levels and its numbers are shown, has no code exactly
    if there is no broken code in any of its texts. -/
theorem strip_plain_unless_broken (s : String) (levels : Bool) (precision : Option Nat)
    (stack : Stack) :
    Laced (strip s).toList s.toList
      ∧ (IsPlain (strip s).toList ↔ ∀ broken, IsBroken broken → ¬broken <:+: s.toList)
      ∧ (strip (strip s) = strip s ↔ IsPlain (strip s).toList)
      ∧ (IsPlain (strip (showStack levels precision stack)).toList
        ↔ ∀ text, Cell.text text ∈ stack →
          ∀ broken, IsBroken broken → ¬broken <:+: text.toList) := by
  refine ⟨?_, isPlain_strip_iff s, strip_strip_eq_iff s, ?_⟩
  · rw [strip, String.toList_ofList]
    exact laced_stripped s.toList
  · rw [isPlain_showStack_iff]
    exact forall₂_congr fun text _ => isPlain_strip_iff text

/-- A code between the bracket and the parameters of another one: when it is removed, the other
    one is left. -/
theorem strip_not_always_plain :
    ¬∀ s : String, IsPlain (strip s).toList ∧ strip (strip s) = strip s := by
  intro h
  have hstrip : (strip (String.ofList [escape, '['] ++ reset ++ "0m")).toList
      = [escape, '[', '0', 'm'] := by decide +kernel
  have hplain := (h (String.ofList [escape, '['] ++ reset ++ "0m")).1
  rw [hstrip] at hplain
  exact hplain [escape, '[', '0', 'm'] ⟨['0'], by decide, rfl⟩ List.infix_rfl

end StackCalc
