/-
  StackCalc.Proofs.Colours

  Texts without their colour codes, piece by piece.  A code has no line end in it, and no escape
  character but its first one, so in front of these the codes are removed separately
  (`stripped_append`, and `strip_lines` for whole lines); the same is true of a complete code, and
  of a text in which no code begins.
-/

import StackCalc.Text.Colour

namespace StackCalc
namespace Text
namespace Colour

/-! ## Characters -/

variable {s t : List Char}

theorem stripped_code (h : afterCode? s = some t) : stripped s = stripped t := by
  cases s with
  | nil => cases h
  | cons c rest =>
    rw [stripped]
    split
    · rename_i tail htail
      rw [h] at htail
      cases htail
      rfl
    · rename_i hnone
      rw [h] at hnone
      cases hnone

theorem stripped_character {c : Char} (h : afterCode? (c :: s) = none) :
    stripped (c :: s) = c :: stripped s := by
  rw [stripped]
  split
  · rename_i tail htail
    rw [h] at htail
    cases htail
  · rfl

/-- A character that no code has behind its first one. -/
structure IsBreak (c : Char) : Prop where
  parameter : isParameter c = false
  bracket : c ≠ '['
  final : c ≠ 'm'

theorem isBreak_lineEnd : IsBreak '\n' := ⟨by decide, by decide, by decide⟩

theorem isBreak_escape : IsBreak escape := ⟨by decide, by decide, by decide⟩

/-- No code begins with a character other than the escape character. -/
theorem afterCode?_of_ne {c : Char} (h : c ≠ escape) (s : List Char) :
    afterCode? (c :: s) = none := by
  unfold afterCode?
  split
  · rename_i first behind hshape
    obtain ⟨rfl, -⟩ := List.cons.inj hshape
    rw [if_neg h]
  · rfl

section

variable {c : Char} (hc : IsBreak c)
include hc

/-- Parameters and a character that is none never run into each other. -/
theorem dropWhile_parameters (s t : List Char) :
    (s ++ c :: t).dropWhile isParameter = s.dropWhile isParameter ++ c :: t := by
  have hend : (c :: t).dropWhile isParameter = c :: t :=
    List.dropWhile_cons_of_neg (by simp [hc.parameter])
  rw [List.dropWhile_append, hend]
  split
  · rename_i hempty
    rw [List.isEmpty_iff.mp hempty]
    rfl
  · rfl

/-- A code that begins in front of such a character is complete in front of it. -/
theorem afterCode?_append {s : List Char} (hs : s ≠ []) (t : List Char) :
    afterCode? (s ++ c :: t) = (afterCode? s).map (· ++ c :: t) := by
  match s with
  | [] => exact absurd rfl hs
  | [first] =>
    have hnone : afterCode? [first] = none := rfl
    rw [hnone, Option.map_none, List.singleton_append]
    unfold afterCode?
    split
    · rename_i second behind hshape
      simp only [List.cons.injEq] at hshape
      exact absurd hshape.2.1 hc.bracket
    · rfl
  | first :: second :: rest =>
    by_cases hsecond : second = '['
    · subst hsecond
      by_cases hfirst : first = escape
      · simp only [List.cons_append, afterCode?, if_pos hfirst, dropWhile_parameters hc]
        match rest.dropWhile isParameter with
        | [] => simp [hc.final]
        | e :: tail =>
          by_cases he : e = 'm'
          · subst he
            rfl
          · simp [he]
      · simp only [List.cons_append, afterCode?, if_neg hfirst, Option.map_none]
    · simp [afterCode?, hsecond]

/-- The codes in front of such a character and those from it on are removed separately. -/
theorem stripped_append (s t : List Char) :
    stripped (s ++ c :: t) = stripped s ++ stripped (c :: t) := by
  induction s using stripped.induct with
  | case1 => rw [stripped, List.nil_append, List.nil_append]
  | case2 first rest tail htail ih =>
    have hcode : afterCode? (first :: rest ++ c :: t) = some (tail ++ c :: t) := by
      rw [afterCode?_append hc (List.cons_ne_nil _ _), htail]
      rfl
    rw [stripped_code hcode, stripped_code htail, ih]
  | case3 first rest hnone ih =>
    have hcode : afterCode? (first :: (rest ++ c :: t)) = none := by
      rw [← List.cons_append, afterCode?_append hc (List.cons_ne_nil _ _), hnone]
      rfl
    rw [List.cons_append, stripped_character hcode, stripped_character hnone, ih,
      List.cons_append]

end

theorem stripped_line (s t : List Char) :
    stripped (s ++ '\n' :: t) = stripped s ++ '\n' :: stripped t := by
  rw [stripped_append isBreak_lineEnd, stripped_character (afterCode?_of_ne (by decide) t)]

theorem stripped_plain (h : escape ∉ s) : stripped (s ++ t) = s ++ stripped t := by
  induction s with
  | nil => rfl
  | cons c rest ih =>
    obtain ⟨hc, hrest⟩ := not_or.mp (mt List.mem_cons.mpr h)
    rw [List.cons_append, stripped_character (afterCode?_of_ne (Ne.symm hc) _), ih hrest,
      List.cons_append]

/-! ## Strings -/

/-- A string of whole lines. -/
def IsLines (s : String) : Prop := s = "" ∨ ∃ line, s = line ++ "\n"

theorem IsLines.append {s t : String} (hs : IsLines s) (ht : IsLines t) : IsLines (s ++ t) := by
  obtain rfl | ⟨line, rfl⟩ := ht
  · rwa [String.append_empty]
  · exact Or.inr ⟨s ++ line, (String.append_assoc ..).symm⟩

theorem strip_empty : strip "" = "" := by
  rw [strip, String.toList_empty, stripped]

/-- Behind whole lines the codes of a string are removed by themselves. -/
theorem strip_lines {s : String} (h : IsLines s) (t : String) :
    strip (s ++ t) = strip s ++ strip t := by
  obtain rfl | ⟨line, rfl⟩ := h
  · rw [String.empty_append, strip_empty, String.empty_append]
  · have hline : (line ++ "\n" ++ t).toList = line.toList ++ '\n' :: t.toList := by
      rw [String.toList_append, String.toList_append, List.append_assoc]
      rfl
    have hend : (line ++ "\n").toList = line.toList ++ '\n' :: [] := by
      rw [String.toList_append]
      rfl
    rw [strip, hline, stripped_line, strip, hend, stripped_line, strip, ← String.ofList_append,
      stripped, List.append_assoc]
    rfl

theorem strip_plain {s : String} (h : escape ∉ s.toList) (t : String) :
    strip (s ++ t) = s ++ strip t := by
  rw [strip, String.toList_append, stripped_plain h, String.ofList_append, String.ofList_toList,
    strip]

theorem strip_code {parameters : String} (h : parameters.toList.all isParameter = true)
    (t : String) : strip (code parameters ++ t) = strip t := by
  have hshape : (code parameters ++ t).toList
      = escape :: '[' :: (parameters.toList ++ 'm' :: t.toList) := by
    rw [code, String.toList_append, String.toList_append, String.toList_append,
      String.toList_ofList, List.append_assoc, List.append_assoc]
    rfl
  have hbehind : (parameters.toList ++ 'm' :: t.toList).dropWhile isParameter
      = 'm' :: t.toList := by
    rw [List.dropWhile_append_of_pos (List.all_eq_true.mp h),
      List.dropWhile_cons_of_neg (by decide)]
  have hcode : afterCode? (escape :: '[' :: (parameters.toList ++ 'm' :: t.toList))
      = some t.toList := by
    simp only [afterCode?, if_true, hbehind]
  rw [strip, hshape, stripped_code hcode, strip]

end Colour
end Text
end StackCalc
