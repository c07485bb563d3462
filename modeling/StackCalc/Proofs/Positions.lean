/-
  StackCalc.Proofs.Positions

  Where the words of a text stand.  In front of a word there are the words before it and gaps
  of blanks and comments, and its position is the one behind all that (`scanFrom_placed`), so
  positions grow from word to word.  The position behind the front of a text says how many
  lines of the text are above and how much of the line is in front (`exists_line`), where
  only a line feed ends a line: so the columns of a word select the word in its line and
  nothing else (`Lexeme.StandsIn.selected?`).
-/

import Mathlib.Data.List.Induction
import StackCalc.Proofs.Scanning

namespace StackCalc

open StackCalc.Text

/-! ## Lines -/

namespace Text

/-- The lines of a source text, without their ends: only a line feed ends a line, and the last
    line has none. -/
def sourceLines (s : List Char) : List (List Char) := s.splitOn '\n'

variable {r s t line : List Char} {below : List (List Char)}

theorem sourceLines_append (s t : List Char) :
    sourceLines (s ++ '\n' :: t) = sourceLines s ++ sourceLines t :=
  List.splitOn_append_cons_self s t

/-- Characters that are no line feeds belong to the line that they stand in front of. -/
theorem sourceLines_inLine (hr : '\n' ∉ r) (ht : sourceLines t = line :: below) :
    sourceLines (r ++ t) = (r ++ line) :: below := by
  induction r with
  | nil => exact ht
  | cons c r ih =>
    obtain ⟨hc, hr⟩ := List.ne_and_not_mem_of_not_mem_cons hr
    have hbeq : ¬(c == '\n') = true := fun h => hc (eq_of_beq h).symm
    have hrest : sourceLines (r ++ t) = (r ++ line) :: below := ih hr
    rw [sourceLines] at hrest
    rw [sourceLines, List.cons_append, List.splitOn_cons_eq_if_modifyHead, if_neg hbeq, hrest]
    rfl

theorem exists_sourceLines (s : List Char) : ∃ line below, sourceLines s = line :: below :=
  List.exists_cons_of_ne_nil (List.splitOn_ne_nil '\n' s)

end Text

/-! ## Positions -/

/-- One position comes before another in the order of reading. -/
def Position.Before (p q : Position) : Prop :=
  p.line < q.line ∨ p.line = q.line ∧ p.column < q.column

variable {p q : Position} {gap s t : List Char} {x : Lexeme} {xs ys : List Lexeme}

theorem Position.Before.trans {p' : Position} (h : p.Before q) (h' : q.Before p') :
    p.Before p' := by
  unfold Before at *
  omega

theorem Position.before_after (p : Position) (c : Char) : p.Before (p.after c) := by
  unfold Before after
  split
  · exact .inl (Nat.lt_succ_self _)
  · exact .inr ⟨rfl, Nat.lt_succ_self _⟩

/-- What comes before a position comes before every position behind it. -/
theorem Position.Before.afterAll (h : p.Before q) (s : List Char) : p.Before (q.afterAll s) := by
  induction s generalizing q with
  | nil => exact h
  | cons c s ih =>
    rw [afterAll_cons]
    exact ih (h.trans (before_after q c))

theorem Position.before_afterAll (p : Position) (hs : s ≠ []) : p.Before (p.afterAll s) := by
  obtain ⟨c, rest, rfl⟩ := List.exists_cons_of_ne_nil hs
  rw [afterAll_cons]
  exact (before_after p c).afterAll rest

/-- Behind the front of a text its line number tells the lines above, and its column what is in
    front of it in the line, whatever follows. -/
theorem exists_line (front : List Char) :
    ∃ above before, '\n' ∉ before
      ∧ Position.start.afterAll front = ⟨above.length + 1, before.length + 1⟩
      ∧ ∀ t, sourceLines (front ++ t) = above ++ sourceLines (before ++ t) := by
  induction front using List.reverseRecOn with
  | nil => exact ⟨[], [], List.not_mem_nil, rfl, fun _ => rfl⟩
  | append_singleton front c ih =>
    obtain ⟨above, before, hbefore, hposition, hlines⟩ := ih
    have hafter : Position.start.afterAll (front ++ [c])
        = Position.after ⟨above.length + 1, before.length + 1⟩ c := by
      rw [Position.afterAll_append, hposition]
      rfl
    by_cases hc : c = '\n'
    · -- The line is complete, and an empty one begins.
      subst hc
      refine ⟨above ++ [before], [], List.not_mem_nil, ?_, ?_⟩
      · rw [hafter, Position.after, if_pos rfl, List.length_append]
        rfl
      · intro t
        have hline : sourceLines before = [before] := List.splitOn_eq_singleton hbefore
        rw [List.append_assoc, List.singleton_append, hlines, sourceLines_append, hline,
          List.append_assoc, List.nil_append]
    · refine ⟨above, before ++ [c], ?_, ?_, ?_⟩
      · rw [List.mem_append, List.mem_singleton]
        rintro (h | rfl)
        · exact hbefore h
        · exact hc rfl
      · rw [hafter, Position.after, if_neg hc, List.length_append]
        rfl
      · intro t
        rw [List.append_assoc, hlines, List.append_assoc]

/-! ## Places -/

/-- Where a word starts. -/
def Lexeme.position (x : Lexeme) : Position := ⟨x.line, x.column⟩

/-- Words that stand one behind the other in a text that starts at a position, each of them a
    run at its own position, with anything between them. -/
inductive Placed : Position → List Char → List Lexeme → Prop
  | nil {p : Position} {s : List Char} : Placed p s []
  | cons {p : Position} (gap : List Char) {s t : List Char} {x : Lexeme} {xs : List Lexeme}
      (htext : s = gap ++ x.text.toList ++ t) (hposition : x.position = p.afterAll gap)
      (hrun : IsRun x.text.toList) (hne : x.text.toList ≠ [])
      (hrest : Placed (x.position.afterAll x.text.toList) t xs) : Placed p s (x :: xs)

namespace Placed

/-- More text in front of words widens the first gap. -/
theorem behind (gap : List Char) (h : Placed (p.afterAll gap) s xs) : Placed p (gap ++ s) xs := by
  cases h with
  | nil => exact .nil
  | @cons _ gap' _ t x xs htext hposition hrun hne hrest =>
    refine .cons (gap ++ gap') ?_ ?_ hrun hne hrest
    · rw [htext, List.append_assoc, List.append_assoc, List.append_assoc]
    · rw [hposition, Position.afterAll_append]

/-- A word that is left out becomes a part of a gap. -/
theorem tail (h : Placed p s (x :: xs)) : Placed p s xs := by
  cases h with
  | @cons _ gap _ t _ _ htext hposition _ _ hrest =>
    rw [hposition, ← Position.afterAll_append] at hrest
    rw [htext]
    exact hrest.behind (gap ++ x.text.toList)

theorem sublist (h : Placed p s xs) (hsub : ys.Sublist xs) : Placed p s ys := by
  induction hsub generalizing p s with
  | slnil => exact .nil
  | cons x _ ih => exact ih h.tail
  | cons_cons x _ ih =>
    cases h with
    | cons gap htext hposition hrun hne hrest =>
      exact .cons gap htext hposition hrun hne (ih hrest)

theorem before (h : Placed p s xs) (hq : q.Before p) : ∀ x ∈ xs, q.Before x.position := by
  induction h with
  | nil => exact nofun
  | @cons p gap s t x xs htext hposition hrun hne hrest ih =>
    have hx : q.Before x.position := by
      rw [hposition]
      exact hq.afterAll gap
    exact List.forall_mem_cons.mpr ⟨hx, ih (hx.afterAll _)⟩

/-- Positions grow from word to word. -/
theorem pairwise (h : Placed p s xs) : xs.Pairwise fun x y => x.position.Before y.position := by
  induction h with
  | nil => exact .nil
  | @cons p gap s t x xs htext hposition hrun hne hrest ih =>
    have hbehind := x.position.before_afterAll hne
    exact .cons (hrest.before hbehind) ih

/-- In front of every word there is a part of the text whose end is the position of the word. -/
theorem split (h : Placed p s xs) (hx : x ∈ xs) :
    ∃ front back, s = front ++ x.text.toList ++ back ∧ x.position = p.afterAll front
      ∧ IsRun x.text.toList := by
  induction h with
  | nil => cases hx
  | @cons p gap s t y xs htext hposition hrun hne hrest ih =>
    rcases List.mem_cons.mp hx with rfl | hx
    · exact ⟨gap, t, htext, hposition, hrun⟩
    · obtain ⟨front, back, ht, hx, hrun'⟩ := ih hx
      refine ⟨gap ++ y.text.toList ++ front, back, ?_, ?_, hrun'⟩
      · rw [htext, ht]
        simp only [List.append_assoc]
      · rw [hx, hposition, Position.afterAll_append, Position.afterAll_append]

end Placed

/-! ## The words of a text -/

/-- A comment is skipped together with its end, and the position goes on behind it. -/
theorem skipComment_split (fresh : Bool) (p : Position) (s : List Char) :
    ∃ skipped, s = skipped ++ (skipComment fresh p s).2
      ∧ (skipComment fresh p s).1 = p.afterAll skipped := by
  induction s generalizing fresh p with
  | nil => exact ⟨[], rfl, rfl⟩
  | cons c rest ih =>
    rw [skipComment]
    split
    · exact ⟨[c], rfl, rfl⟩
    · obtain ⟨skipped, hrest, hposition⟩ := ih (isBlank c) (p.after c)
      exact ⟨c :: skipped, congrArg (c :: ·) hrest, hposition⟩

/-- Every word that is read stands at its position, with blanks and comments in the gaps. -/
theorem scanFrom_placed (p : Position) (s : List Char) : Placed p s (scanFrom p s).lexemes := by
  induction s using scanInduction generalizing p with
  | nil =>
    rw [scanFrom]
    exact .nil
  | blank b s hb ih =>
    rw [scanFrom_blank hb, scanBehind]
    split
    · exact .nil
    · exact (ih s (Nat.le_refl _) (p.after b)).behind [b]
  | word r t hr hne hopens ht ih =>
    rw [scanFrom_word hr hne hopens ht]
    have hrest := ih (p.afterAll r)
    rw [← String.toList_ofList (l := r)] at hr hne
    refine .cons [] (t := t) ?_ rfl hr hne ?_
    · rw [List.nil_append, String.toList_ofList]
    · rw [String.toList_ofList]
      exact hrest
  | comment t ht ih =>
    obtain ⟨skipped, hsplit, hposition⟩ := skipComment_split false (p.after '<') t
    have hshorter := skipComment_length false (p.after '<') t
    have hrest := ih _ hshorter (skipComment false (p.after '<') t).1
    rw [scanFrom_comment ht]
    rw [hposition] at hrest ⊢
    have hplaced := Placed.behind (p := p) ('<' :: skipped) hrest
    rwa [List.cons_append, ← hsplit] at hplaced

/-- A word stands in a text where its line and its column say, both counted from one. -/
def Lexeme.StandsIn (x : Lexeme) (source : String) : Prop :=
  ∃ above before after below,
    sourceLines source.toList = above ++ (before ++ x.text.toList ++ after) :: below
      ∧ x.line = above.length + 1 ∧ x.column = before.length + 1

/-- No line feed stands in a word or between the word and the start of its line. -/
theorem standsIn_of_placed {source : String} (h : Placed .start source.toList xs) (hx : x ∈ xs) :
    x.StandsIn source := by
  obtain ⟨front, back, hsource, hposition, hrun⟩ := h.split hx
  obtain ⟨above, before, hbefore, hfront, hlines⟩ := exists_line front
  obtain ⟨after, below, hback⟩ := exists_sourceLines back
  have hword : '\n' ∉ x.text.toList := fun hmem => absurd (hrun '\n' hmem) (by decide)
  have hline := sourceLines_inLine hbefore (sourceLines_inLine hword hback)
  have hstart : x.position = ⟨above.length + 1, before.length + 1⟩ := hposition.trans hfront
  refine ⟨above, before, after, below, ?_, congrArg Position.line hstart,
    congrArg Position.column hstart⟩
  rw [hsource, List.append_assoc, hlines, hline, List.append_assoc]

theorem standsIn_of_mem_scan {source : String} (hx : x ∈ (scan source).lexemes) :
    x.StandsIn source :=
  standsIn_of_placed (scanFrom_placed .start source.toList) hx

/-! ## What a place selects -/

/-- The text that a place selects: what stands in its line between its columns, if the text has
    such a line and the line such columns. -/
def Place.selected? (place : Place) (source : String) : Option String :=
  match place.first, place.last, place.columns with
  | some first, some last, some (start, stop) =>
    (sourceLines source.toList)[(first - 1).toNat]?.bind fun line =>
      if 1 ≤ first ∧ first = last ∧ 1 ≤ start ∧ start ≤ stop ∧ stop ≤ line.length + 1 then
        some (String.ofList ((line.take (stop - 1).toNat).drop (start - 1).toNat))
      else none
  | _, _, _ => none

/-- The place of a word selects the word. -/
theorem Lexeme.StandsIn.selected? {source : String} (h : x.StandsIn source)
    (name : Option String) : (x.token name).settled.selected? source = some x.text := by
  obtain ⟨above, before, after, below, hlines, hline, hcolumn⟩ := h
  have hlength : x.text.toList.length = x.text.length := String.length_toList
  have hindex : ((x.line : Int) - 1).toNat = above.length := by omega
  have hstart : ((x.column : Int) - 1).toNat = before.length := by omega
  have hstop : ((x.column : Int) + x.text.length - 1).toNat
      = (before ++ x.text.toList).length := by
    rw [List.length_append]
    omega
  have hfound : (sourceLines source.toList)[((x.line : Int) - 1).toNat]?
      = some (before ++ x.text.toList ++ after) := by
    rw [hlines, hindex, List.getElem?_append_right (Nat.le_refl _), Nat.sub_self]
    rfl
  have hcolumns : (1 : Int) ≤ x.line ∧ (x.line : Int) = x.line ∧ (1 : Int) ≤ x.column
      ∧ (x.column : Int) ≤ x.column + x.text.length
      ∧ (x.column : Int) + x.text.length
        ≤ (before ++ x.text.toList ++ after).length + 1 := by
    rw [List.length_append, List.length_append]
    omega
  show (sourceLines source.toList)[((x.line : Int) - 1).toNat]?.bind _ = some x.text
  rw [hfound, Option.bind_some, if_pos hcolumns, hstart, hstop, List.take_left, List.drop_left,
    String.ofList_toList]

end StackCalc
