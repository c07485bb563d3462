/-
  StackCalc.Proofs.Paths

  A path in its normal form is taken apart into the steps that it is made of, so that
  normal forms are settled and a list of steps is found again in its path.
-/

import Mathlib.Data.List.SplitBy
import StackCalc.FilePath

namespace StackCalc
namespace FilePath

variable {path lead step : String} {steps : List String} {s : List Char}

/-! ## Parts between slashes -/

/-- A part of a path between slashes. -/
def IsPart (part : String) : Prop := part.toList ≠ [] ∧ '/' ∉ part.toList

/-- Whether two characters that stand side by side belong to one part. -/
def joined (a b : Char) : Bool := a ≠ '/' && b ≠ '/'

/-- The parts between the slashes of a text. -/
def segments (s : List Char) : List String :=
  (s.splitBy joined).filterMap fun part =>
    if part = ['/'] then none else some (String.ofList part)

theorem split_eq (path : String) : split path = segments path.toList := rfl

theorem segments_slash (s : List Char) : segments ('/' :: s) = segments s := by
  have apart : ∀ x ∈ ['/'].getLast?, ∀ y ∈ s.head?, joined x y = false := by
    rintro x ⟨rfl⟩ y -
    rfl
  have cut := List.splitBy_append apart
  rw [List.singleton_append] at cut
  rw [segments, cut, List.filterMap_append]
  rfl

theorem segments_part {part : String} (h : IsPart part) : segments part.toList = [part] := by
  obtain ⟨ne_nil, plain⟩ := h
  have chain : part.toList.IsChain fun a b => joined a b = true := by
    refine (List.pairwise_of_forall_mem_list fun a ha b hb => ?_).isChain
    have left : a ≠ '/' := fun slash => plain (slash ▸ ha)
    have right : b ≠ '/' := fun slash => plain (slash ▸ hb)
    simp [joined, left, right]
  have other : part.toList ≠ ['/'] := fun slash => plain (by simp [slash])
  rw [segments, List.splitBy_of_isChain ne_nil chain]
  simp [other]

theorem segments_part_slash {part : String} (h : IsPart part) (s : List Char) :
    segments (part.toList ++ '/' :: s) = part :: segments s := by
  have apart : ∀ x ∈ part.toList.getLast?, joined x '/' = false := by
    simp [joined]
  have cut := List.splitBy_append_cons s apart
  have first := segments_part h
  have rest := segments_slash s
  rw [segments] at first rest ⊢
  rw [cut, List.filterMap_append, first, rest]
  rfl

theorem segments_intercalate {parts : List String} (h : ∀ part ∈ parts, IsPart part) :
    segments ("/".intercalate parts).toList = parts := by
  induction parts with
  | nil => rfl
  | cons part parts ih =>
    have first : IsPart part := h part List.mem_cons_self
    have rest := ih fun part found => h part (List.mem_cons_of_mem _ found)
    cases parts with
    | nil => exact segments_part first
    | cons next parts =>
      rw [String.intercalate_cons_cons, String.toList_append, String.toList_append,
        List.append_assoc]
      exact (segments_part_slash first _).trans (congrArg _ rest)

/-- No slash is within a part. -/
theorem slash_not_mem {part : List Char} (chain : part.IsChain fun a b => joined a b = true)
    (other : part ≠ ['/']) : '/' ∉ part := by
  induction part with
  | nil => simp
  | cons a part ih =>
    cases part with
    | nil => simpa using fun slash => other (by rw [slash])
    | cons b part =>
      obtain ⟨both, rest⟩ := List.isChain_cons_cons.1 chain
      simp only [joined, Bool.and_eq_true, decide_eq_true_eq] at both
      have behind := ih rest fun slash => both.2 (List.cons.inj slash).1
      exact fun slash => (List.mem_cons.1 slash).elim (Ne.symm both.1) behind

theorem isPart_of_mem_split (h : step ∈ split path) : IsPart step := by
  obtain ⟨part, found, spelled⟩ := List.mem_filterMap.1 h
  split at spelled
  · cases spelled
  · rename_i other
    cases spelled
    have ne_nil : part ≠ [] := List.ne_nil_of_mem_splitBy found
    have plain : '/' ∉ part := slash_not_mem (List.isChain_of_mem_splitBy found) other
    rw [IsPart, String.toList_ofList]
    exact ⟨ne_nil, plain⟩

/-! ## Normal forms -/

/-- A step that leads somewhere. -/
def IsStep (step : String) : Prop := IsPart step ∧ step ≠ "."

theorem isStep_of_mem_parts (h : step ∈ parts path) : IsStep step := by
  obtain ⟨found, other⟩ := List.mem_filter.1 h
  exact ⟨isPart_of_mem_split found, by simpa using other⟩

/-- The start of a path: nothing, one slash, or exactly two. -/
def IsLead (lead : String) : Prop := lead = "" ∨ lead = "/" ∨ lead = "//"

theorem isLead_root (path : String) : IsLead (root path) := by
  unfold root IsLead
  split <;> simp

/-- Steps that lead somewhere are found again behind the start of a path. -/
theorem parts_lead (h : IsLead lead) (valid : ∀ step ∈ steps, IsStep step) :
    parts (lead ++ "/".intercalate steps) = steps := by
  have behind : split (lead ++ "/".intercalate steps) = steps := by
    have whole := segments_intercalate fun part found => (valid part found).1
    rw [split_eq, String.toList_append]
    obtain rfl | rfl | rfl := h
    · exact whole
    · exact (segments_slash _).trans whole
    · exact (segments_slash _).trans ((segments_slash _).trans whole)
  rw [parts, behind, List.filter_eq_self]
  exact fun step found => by simpa using (valid step found).2

theorem intercalate_begins (valid : ∀ step ∈ steps, IsStep step) :
    ("/".intercalate steps).toList.head? ≠ some '/' := by
  cases steps with
  | nil => simp
  | cons step steps =>
    obtain ⟨⟨ne_nil, plain⟩, -⟩ := valid step List.mem_cons_self
    obtain ⟨c, rest, text⟩ := List.exists_cons_of_ne_nil ne_nil
    have first : c ≠ '/' := fun slash => plain (by simp [text, slash])
    have head : ("/".intercalate (step :: steps)).toList.head? = some c := by
      cases steps with
      | nil => rw [String.intercalate_singleton, text, List.head?_cons]
      | cons next steps =>
        rw [String.intercalate_cons_cons, String.toList_append, String.toList_append, text]
        rfl
    rw [head]
    simpa using first

theorem root_lead (h : IsLead lead) (valid : ∀ step ∈ steps, IsStep step) :
    root (lead ++ "/".intercalate steps) = lead := by
  have begins := intercalate_begins valid
  rw [root, String.toList_append]
  generalize ("/".intercalate steps).toList = text at begins ⊢
  cases text with
  | nil => obtain rfl | rfl | rfl := h <;> rfl
  | cons c text =>
    have other : c ≠ '/' := by simpa using begins
    obtain rfl | rfl | rfl := h <;> simp [other]

/-- A normal form is its own normal form. -/
@[simp]
theorem normal_normal (path : String) : normal (normal path) = normal path := by
  have valid : ∀ step ∈ parts path, IsStep step := fun _ => isStep_of_mem_parts
  -- a path that leads nowhere is written as a point, which is no part of its own form
  by_cases empty : (root path ++ "/".intercalate (parts path)).isEmpty
  · have point : normal path = "." := if_pos empty
    rw [point]
    decide
  · have text : normal path = root path ++ "/".intercalate (parts path) := if_neg empty
    have again : normal (normal path) = root path ++ "/".intercalate (parts path) := by
      rw [text, normal, parts_lead (isLead_root path) valid, root_lead (isLead_root path) valid]
      exact if_neg empty
    rw [again, text]

/-! ## Places -/

/-- The steps to a place: those that lead somewhere, from the working directory or from the
    root. -/
def IsPlace (steps : List String) : Prop :=
  ∃ rest, (∀ step ∈ rest, IsStep step) ∧ (steps = rest ∨ steps = "/" :: rest)

theorem not_isStep_slash : ¬IsStep "/" := by
  rintro ⟨⟨-, plain⟩, -⟩
  exact plain (by decide)

/-- The steps to a place are those of its path. -/
theorem steps_ofSteps (h : IsPlace steps) : FilePath.steps (ofSteps steps) = steps := by
  obtain ⟨rest, valid, rfl | rfl⟩ := h
  · have path : ofSteps steps = "" ++ "/".intercalate steps := by
      unfold ofSteps
      split
      · exact absurd (valid "/" List.mem_cons_self) not_isStep_slash
      · rw [String.empty_append]
    rw [path, FilePath.steps, parts_lead (.inl rfl) valid, anchored, root_lead (.inl rfl) valid]
    rfl
  · have path : ofSteps ("/" :: rest) = "/" ++ "/".intercalate rest := rfl
    rw [path, FilePath.steps, parts_lead (.inr (.inl rfl)) valid, anchored,
      root_lead (.inr (.inl rfl)) valid]
    rfl

end FilePath
end StackCalc
