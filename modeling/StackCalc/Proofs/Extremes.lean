/-
  StackCalc.Proofs.Extremes

  The least and the greatest number of a stack, in two ways.  `min_` and `max_` go through the
  whole stack from its top; `[ min ] fold` and `[ max ] fold` start with the cell on top as well,
  but then go on from the bottom, and run the block for every cell.  In both a number takes the
  place of another only if it lies before it, seen from the end that is looked for
  (`Extremum.pick`), so each of them comes to a number of the stack that none lies before
  (`isExtreme_foldl`), and any two of these are equal (`IsExtreme.beq`).
-/

import StackCalc.Proofs.Comparisons
import StackCalc.Proofs.Folding
import StackCalc.Proofs.Phrases

namespace StackCalc

open Double

/-! ## The ends of the numbers -/

/-- The end of the numbers that is looked for. -/
inductive Extremum where
  | minimum
  | maximum

namespace Extremum

/-- A number lies before another, seen from an end of the numbers. -/
def Before : Extremum → Float → Float → Prop
  | minimum, x, y => x < y
  | maximum, x, y => x > y

instance (goal : Extremum) (x y : Float) : Decidable (goal.Before x y) :=
  match goal with
  | minimum => inferInstanceAs (Decidable (x < y))
  | maximum => inferInstanceAs (Decidable (x > y))

/-- A number does not lie behind another, seen from an end of the numbers. -/
def Bounds : Extremum → Float → Float → Prop
  | minimum, x, y => x ≤ y
  | maximum, x, y => x ≥ y

/-- The first of two numbers, unless the second lies before it. -/
def pick (goal : Extremum) (x y : Float) : Float := if goal.Before y x then y else x

/-- The word of the operation on two numbers. -/
def word : Extremum → String
  | minimum => "min"
  | maximum => "max"

/-- The word of the operation on the whole stack. -/
def wholeWord : Extremum → String
  | minimum => "min_"
  | maximum => "max_"

/-- The operation on the whole stack. -/
def reduction : Extremum → Reduction
  | minimum => .minimum
  | maximum => .maximum

/-- The program that folds the stack with the operation on two numbers. -/
def folding (goal : Extremum) : String := "[ " ++ goal.word ++ " ] fold"

end Extremum

variable {goal : Extremum} {x y z : Float} {xs ys : List Float} {setting : Setting}

/-! ## Bounds -/

section

variable (hx : isNaN x = false) (hy : isNaN y = false)

include hx hy

theorem bounds_of_before (h : goal.Before x y) : goal.Bounds x y := by
  cases goal with
  | minimum => exact Double.le_of_lt hx hy h
  | maximum => exact Double.le_of_lt hy hx h

theorem bounds_of_not_before (h : ¬goal.Before y x) : goal.Bounds x y := by
  cases goal with
  | minimum => exact Double.le_of_not_lt hx hy h
  | maximum => exact Double.le_of_not_lt hy hx h

theorem Extremum.Bounds.trans (hz : isNaN z = false) (h : goal.Bounds x y)
    (h' : goal.Bounds y z) : goal.Bounds x z := by
  cases goal with
  | minimum => exact Double.le_trans hx hy hz h h'
  | maximum => exact Double.le_trans hz hy hx h' h

theorem Extremum.Bounds.beq (h : goal.Bounds x y) (h' : goal.Bounds y x) : (x == y) = true := by
  cases goal with
  | minimum => exact Double.beq_of_le_of_le hx hy h h'
  | maximum => exact Double.beq_of_le_of_le hx hy h' h

end

theorem bounds_refl (goal : Extremum) (hx : isNaN x = false) : goal.Bounds x x := by
  cases goal with
  | minimum => exact Double.le_refl hx
  | maximum => exact Double.le_refl hx

/-! ## Extreme numbers of a list -/

/-- A number of a list that bounds all of them. -/
structure IsExtreme (goal : Extremum) (xs : List Float) (x : Float) : Prop where
  mem : x ∈ xs
  bounds : ∀ y ∈ xs, goal.Bounds x y

/-- Extreme numbers of one list are equal. -/
theorem IsExtreme.beq (hnumbers : ∀ z ∈ xs, isNaN z = false) (h : IsExtreme goal xs x)
    (h' : IsExtreme goal xs y) : (x == y) = true :=
  (h.bounds y h'.mem).beq (hnumbers x h.mem) (hnumbers y h'.mem) (h'.bounds x h.mem)

/-- An extreme number does not depend on the order of the list. -/
theorem IsExtreme.of_perm (h : IsExtreme goal xs x) (hperm : xs.Perm ys) : IsExtreme goal ys x where
  mem := hperm.mem_iff.mp h.mem
  bounds y hy := h.bounds y (hperm.mem_iff.mpr hy)

theorem isExtreme_singleton (goal : Extremum) (hx : isNaN x = false) : IsExtreme goal [x] x where
  mem := List.mem_singleton_self x
  bounds := List.forall_mem_singleton.mpr (bounds_refl goal hx)

/-- The pick of an extreme number and one more is extreme among all of them. -/
theorem IsExtreme.pick (hnumbers : ∀ z ∈ xs, isNaN z = false) (hy : isNaN y = false)
    (h : IsExtreme goal xs x) : IsExtreme goal (xs ++ [y]) (goal.pick x y) := by
  have hx : isNaN x = false := hnumbers x h.mem
  rw [Extremum.pick]
  split
  · -- What lies before an extreme number bounds all that this one bounds.
    rename_i hbefore
    refine ⟨List.mem_append_right _ (List.mem_singleton_self y), ?_⟩
    refine List.forall_mem_append.mpr ⟨fun z hz => ?_, ?_⟩
    · exact (bounds_of_before hy hx hbefore).trans hy hx (hnumbers z hz) (h.bounds z hz)
    · exact List.forall_mem_singleton.mpr (bounds_refl goal hy)
  · -- The old number is kept, also if the new one only equals it.
    rename_i hbefore
    refine ⟨List.mem_append_left _ h.mem, ?_⟩
    refine List.forall_mem_append.mpr ⟨h.bounds, ?_⟩
    exact List.forall_mem_singleton.mpr (bounds_of_not_before hx hy hbefore)

/-- Picking from an extreme number on, one number after the other, comes to an extreme one. -/
theorem isExtreme_foldl_append (hnumbers : ∀ z ∈ xs ++ ys, isNaN z = false)
    (h : IsExtreme goal xs x) : IsExtreme goal (xs ++ ys) (ys.foldl goal.pick x) := by
  -- On the numbers that are left; those before them have been picked from.
  induction ys generalizing xs x with
  | nil =>
    rw [List.append_nil]
    exact h
  | cons y ys ih =>
    obtain ⟨hxs, hrest⟩ := List.forall_mem_append.mp hnumbers
    have hy : isNaN y = false := (List.forall_mem_cons.mp hrest).1
    have hjoined : xs ++ y :: ys = xs ++ [y] ++ ys := by
      rw [List.append_assoc, List.singleton_append]
    rw [hjoined] at hnumbers ⊢
    exact ih hnumbers (h.pick hxs hy)

/-- Picking from the first number on comes to an extreme number. -/
theorem isExtreme_foldl (hnumbers : ∀ z ∈ x :: xs, isNaN z = false) :
    IsExtreme goal (x :: xs) (xs.foldl goal.pick x) :=
  isExtreme_foldl_append hnumbers
    (isExtreme_singleton goal (hnumbers x List.mem_cons_self))

/-! ## The whole stack -/

/-- Numbers pass the check for numbers. -/
theorem checkInputs_numbers (name : String) (xs : List Float) :
    checkInputs name (List.replicate (xs.map Cell.number).length .number) (xs.map Cell.number)
      = .ok () := by
  rw [checkInputs_ok_iff, List.length_replicate, List.take_length, List.length_map]
  induction xs with
  | nil => exact .nil
  | cons x xs ih => exact .cons rfl ih

theorem numbers?_map_number (xs : List Float) : numbers? (xs.map Cell.number) = some xs := by
  induction xs with
  | nil => rfl
  | cons x xs ih =>
    rw [numbers?] at ih
    rw [numbers?, List.map_cons, List.mapM_cons, ih]
    rfl

/-- The operation on the whole stack picks from the top downwards. -/
theorem applyCommand_reduction (goal : Extremum) (config : Config) (name : String) (x : Float)
    (xs : List Float) (m : Machine) :
    applyCommand config (.reduce goal.reduction) name ((x :: xs).map .number) m
      = (.ok [.number (xs.foldl goal.pick x)], m) := by
  have hdeep : require name 1 ((x :: xs).map Cell.number) = .ok () := rfl
  have happly : goal.reduction.apply x xs = .ok (xs.foldl goal.pick x) := by
    cases goal <;> rfl
  simp only [applyCommand, hdeep, checkInputs_numbers, numbers?_map_number, happly]

/-- The operation on two numbers picks one of them. -/
theorem produces_pick (goal : Extremum) (x y : Float) :
    Builtin.Produces goal.word [.number y, .number x] [.number (goal.pick x y)] := by
  have hcells : Fits [.number, .number] [.number y, .number x] := .cons rfl (.cons rfl .nil)
  cases goal with
  | minimum => exact Builtin.produces_of_body rfl rfl hcells rfl
  | maximum => exact Builtin.produces_of_body rfl rfl hcells rfl

/-- The block of a fold picks one of two numbers. -/
theorem run_pick (hkeeps : setting.library.Keeps goal.word) (depth : Nat) (place : Place)
    (x y : Float) (m : Machine) :
    (run setting (depth + 1) [.word goal.word place] [.number y, .number x] m).1
      = .ok [.number (goal.pick x y)] := by
  have htarget : Builtin.target goal.word = goal.word := by
    cases goal <;> rfl
  refine runFrame_singleton (by simp) (fun m => ?_) 0 m
  have hproduces := produces_pick goal x y
  rw [← htarget] at hproduces
  exact congrArg Prod.fst (executeNode_produces hkeeps hproduces place [] m)

/-- A fold of the whole stack starts with the cell on top and then picks from the bottom
    upwards. -/
theorem executeNode_folding (hkeeps : setting.library.Keeps goal.word) (depth : Nat)
    (inner outer : Place) (x : Float) (xs : List Float) (m : Machine) :
    (executeNode setting (run setting (depth + 1)) (.block [.word goal.word inner] .fold outer)
        ((x :: xs).map .number) m).1
      = .ok [.number (xs.reverse.foldl goal.pick x)] := by
  have hfold := applyBlock_foldl (run setting (depth + 1)) [.word goal.word inner] outer m
    (fun y x m => run_pick hkeeps depth inner x y m) x xs.reverse
  rwa [List.reverse_reverse] at hfold

/-! ## Runs -/

section

variable (session : Session) (name : Option String) (verbosity : Nat)

theorem run_whole (goal : Extremum) (hkeeps : session.library.Keeps goal.wholeWord) (x : Float)
    (xs : List Float) :
    (session.run goal.wholeWord ((x :: xs).map .number) name verbosity).result
      = .ok [.number (xs.foldl goal.pick x)] := by
  have hword : IsWord goal.wholeWord := by
    cases goal <;> decide +kernel
  have hresolve : ∀ place, Library.fresh.resolve goal.wholeWord place
      = .ok ⟨goal.wholeWord,
          .command (Builtin.target goal.wholeWord) (.reduce goal.reduction)⟩ := by
    intro place
    cases goal <;> rfl
  have hkept : (session.setting verbosity).library.Keeps goal.wholeWord := hkeeps
  obtain ⟨place, hrun⟩ := run_of_word session hword name verbosity
  rw [hrun]
  refine runFrame_singleton (by simp) (fun m => ?_) 0 session.machine
  rw [executeNode_command hkept hresolve, applyCommand_reduction]

theorem scan_folding (goal : Extremum) :
    scan goal.folding
      = ⟨[⟨.blockOpen, "[", 1, 1⟩, ⟨.word, goal.word, 1, 3⟩, ⟨.blockClose, "]", 1, 7⟩,
          ⟨.combinator, "fold", 1, 9⟩], none⟩ := by
  cases goal <;> decide +kernel

theorem run_folding (goal : Extremum) (hkeeps : session.library.Keeps goal.word) (x : Float)
    (xs : List Float) :
    (session.run goal.folding ((x :: xs).map .number) name verbosity).result
      = .ok [.number (xs.reverse.foldl goal.pick x)] := by
  -- The text is a single block, and its places do not matter.
  have hscan := scan_folding goal
  have hstray : (scan goal.folding).stray = none := by
    rw [hscan]
  have hitems : Grammar.IsItems Lexeme.kind (scan goal.folding).lexemes := by
    rw [hscan]
    exact .cons (.block rfl (.cons (.literal (.inr (.inr rfl))) .nil) rfl rfl) .nil
  obtain ⟨inner, outer, hmake⟩ : ∃ inner outer,
      MakeAll (Session.tokens name (scan goal.folding).lexemes)
        [.block [.word goal.word inner] .fold outer] := by
    rw [hscan]
    exact ⟨_, _, .cons (.block rfl (.cons (.word rfl) .nil) rfl rfl) .nil⟩
  have hkept : (session.setting verbosity).library.Keeps goal.word := hkeeps
  rw [run_of_items session hstray hitems hmake]
  exact runFrame_singleton (by simp) (executeNode_folding hkept _ inner outer x xs) 0
    session.machine

/-- On every stack of numbers that is not empty, the operation on the whole stack and the fold
    come to two extreme numbers of it, which are equal. -/
theorem run_extremes (goal : Extremum) (hwhole : session.library.Keeps goal.wholeWord)
    (hfold : session.library.Keeps goal.word) (hxs : xs ≠ [])
    (hnumbers : ∀ x ∈ xs, isNaN x = false) :
    ∃ x y, (session.run goal.wholeWord (xs.map .number) name verbosity).result
          = .ok [.number x]
      ∧ (session.run goal.folding (xs.map .number) name verbosity).result = .ok [.number y]
      ∧ (x == y) = true ∧ IsExtreme goal xs x ∧ IsExtreme goal xs y := by
  obtain ⟨first, rest, rfl⟩ := List.exists_cons_of_ne_nil hxs
  -- Both start with the cell on top; the fold meets the others in the opposite order.
  have hperm : (first :: rest.reverse).Perm (first :: rest) :=
    (List.reverse_perm rest).cons first
  have hx : IsExtreme goal (first :: rest) (rest.foldl goal.pick first) :=
    isExtreme_foldl hnumbers
  have hy : IsExtreme goal (first :: rest) (rest.reverse.foldl goal.pick first) := by
    refine IsExtreme.of_perm (isExtreme_foldl fun z hz => ?_) hperm
    exact hnumbers z (hperm.mem_iff.mp hz)
  exact ⟨_, _, run_whole session name verbosity goal hwhole first rest,
    run_folding session name verbosity goal hfold first rest, hx.beq hnumbers hy, hx, hy⟩

/-- On every stack of numbers that is not empty, `min_` and `[ min ] fold` each leave one number;
    the two are equal, although they may be two zeros, both are on the stack, and no number of it
    is less.  Likewise `max_` and `[ max ] fold` leave a number that none is greater than. -/
theorem whole_stack_agrees_fold
    (hkeeps : ∀ word ∈ ["min", "max", "min_", "max_"], session.library.Keeps word)
    (xs : List Float) (hxs : xs ≠ []) (hnumbers : ∀ x ∈ xs, isNaN x = false) :
    let result (source : String) :=
      (session.run source (xs.map .number) name verbosity).result
    (∃ x y, result "min_" = .ok [.number x] ∧ result "[ min ] fold" = .ok [.number y]
        ∧ (x == y) = true ∧ x ∈ xs ∧ y ∈ xs ∧ ∀ z ∈ xs, x ≤ z ∧ y ≤ z)
      ∧ ∃ x y, result "max_" = .ok [.number x] ∧ result "[ max ] fold" = .ok [.number y]
        ∧ (x == y) = true ∧ x ∈ xs ∧ y ∈ xs ∧ ∀ z ∈ xs, z ≤ x ∧ z ≤ y := by
  intro result
  constructor
  · obtain ⟨x, y, hwhole, hfold, hequal, hx, hy⟩ :=
      run_extremes session name verbosity .minimum (hkeeps "min_" (by decide))
        (hkeeps "min" (by decide)) hxs hnumbers
    exact ⟨x, y, hwhole, hfold, hequal, hx.mem, hy.mem,
      fun z hz => ⟨hx.bounds z hz, hy.bounds z hz⟩⟩
  · obtain ⟨x, y, hwhole, hfold, hequal, hx, hy⟩ :=
      run_extremes session name verbosity .maximum (hkeeps "max_" (by decide))
        (hkeeps "max" (by decide)) hxs hnumbers
    exact ⟨x, y, hwhole, hfold, hequal, hx.mem, hy.mem,
      fun z hz => ⟨hx.bounds z hz, hy.bounds z hz⟩⟩

end

/-- A stack with both zeros, under a definition of `min` that is never called. -/
theorem whole_stack_agrees_fold_zeros :
    let session : Session :=
      { Session.fresh .default with library := Library.fresh.define "min" ⟨[], .empty none⟩ }
    let xs := [1, ofMagnitude false 0, ofMagnitude true 0]
    (∀ word ∈ ["min", "max", "min_", "max_"], session.library.Keeps word)
      ∧ xs ≠ [] ∧ (∀ x ∈ xs, isNaN x = false)
      ∧ ∃ x y, (session.run "min_" (xs.map .number) none 0).result = .ok [.number x]
        ∧ (session.run "[ min ] fold" (xs.map .number) none 0).result = .ok [.number y]
        ∧ (x == y) = true ∧ x ∈ xs ∧ y ∈ xs ∧ ∀ z ∈ xs, x ≤ z ∧ y ≤ z := by
  intro session xs
  have hstandard : session.library.IsStandard := rfl
  have hbuiltin : ∀ word ∈ ["min", "max", "min_", "max_"], Library.fresh.isBuiltin word = true := by
    decide +kernel
  have hkeeps : ∀ word ∈ ["min", "max", "min_", "max_"], session.library.Keeps word :=
    fun word hword => hstandard.keeps (hbuiltin word hword)
  have hxs : xs ≠ [] := List.cons_ne_nil _ _
  have hnumbers : ∀ x ∈ xs, isNaN x = false := by
    decide +kernel
  exact ⟨hkeeps, hxs, hnumbers, (whole_stack_agrees_fold session none 0 hkeeps xs hxs hnumbers).1⟩

end StackCalc
