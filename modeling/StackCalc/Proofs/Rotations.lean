/-
  StackCalc.Proofs.Rotations

  Turning the stack.  `roll` takes the top of the stack to its bottom and `rot` the bottom to
  its top: on a stack of `n` cells both turn it in the same direction, by one cell or by the
  `n - 1` others (`applyCommand_turn`).  So a text of such turns adds up how many cells each of
  them moves (`run_turns`), and what is left of the laws of rotations is to count modulo `n`
  (`turns_cancel`).
-/

import Mathlib.Data.List.Rotate
import Mathlib.Data.Nat.ModEq
import StackCalc.Proofs.Phrases

namespace StackCalc

/-! ## Single turns -/

/-- A command that turns the stack. -/
inductive Turn where
  | roll
  | rotate

namespace Turn

/-- The word of a turn. -/
def word : Turn → String
  | roll => "roll"
  | rotate => "rot"

/-- The command of a turn. -/
def command : Turn → Command
  | roll => .roll
  | rotate => .rotate

/-- How many cells of a stack of `n` cells a turn takes from its top to its bottom. -/
def shift (n : Nat) : Turn → Nat
  | roll => 1
  | rotate => n - 1

/-- The text of turns that are made one after the other. -/
def program (turns : List Turn) : String := " ".intercalate (turns.map word)

theorem isWord (turn : Turn) : IsWord turn.word := by
  cases turn <;> decide +kernel

theorem resolve (turn : Turn) (place : Option Place) :
    Library.fresh.resolve turn.word place
      = .ok ⟨turn.word, .command turn.word turn.command⟩ := by
  cases turn <;> rfl

end Turn

variable {setting : Setting} {nested : Nested} {stack : Stack} {nodes : List Node}
  {turns : List Turn}

/-- A turn of a stack that is not empty. -/
theorem applyCommand_turn (turn : Turn) (config : Config) (name : String) (hstack : stack ≠ [])
    (m : Machine) :
    applyCommand config turn.command name stack m
      = (.ok (stack.rotate (turn.shift stack.length)), m) := by
  have hlength : 1 ≤ stack.length := List.length_pos_iff.mpr hstack
  have hdeep : ¬stack.length < 1 := Nat.not_lt.mpr hlength
  cases turn with
  | roll =>
    show applyCommand config .roll name stack m = _
    rw [Turn.shift, List.rotate_eq_drop_append_take hlength]
    simp only [applyCommand, require, if_neg hdeep]
  | rotate =>
    show applyCommand config .rotate name stack m = _
    rw [Turn.shift, List.rotate_eq_drop_append_take (Nat.sub_le _ _)]
    simp only [applyCommand, require, if_neg hdeep]

/-- An empty stack cannot be turned. -/
theorem applyCommand_turn_nil (turn : Turn) (config : Config) (name : String) (m : Machine) :
    applyCommand config turn.command name [] m
      = (.error (.failure (.onStack name [] (.tooFew name 1 0))), m) := by
  cases turn <;> rfl

theorem executeNode_turn (turn : Turn) (hkeeps : setting.library.Keeps turn.word) (place : Place)
    (stack : Stack) (m : Machine) :
    executeNode setting nested (.word turn.word place) stack m
      = applyCommand setting.config turn.command turn.word stack m :=
  executeNode_command hkeeps turn.resolve place stack m

/-! ## Whole rounds -/

/-- Whole rounds of a list make no difference. -/
theorem rotate_congr {α : Type} {cells : List α} {k l : Nat} (h : k ≡ l [MOD cells.length]) :
    cells.rotate k = cells.rotate l := by
  rw [← List.rotate_mod cells k, h, List.rotate_mod]

/-- To go back by all cells but `k` is to go on by `k` cells. -/
theorem back_modEq {n k : Nat} (hn : 0 < n) (hk : k ≤ n) : (n - k) * (n - 1) ≡ k [MOD n] := by
  -- Behind `n - k` cells more, both are at a whole number of rounds.
  have hback : (n - k) * (n - 1) + (n - k) = (n - k) * n := by
    rw [← Nat.mul_succ, Nat.succ_eq_add_one, Nat.sub_add_cancel hn]
  have hon : k + (n - k) = n := Nat.add_sub_cancel' hk
  refine Nat.ModEq.add_right_cancel' (n - k) ?_
  rw [hback, hon]
  exact (Nat.modEq_zero_iff_dvd.mpr (Nat.dvd_mul_left n (n - k))).trans
    (Nat.modEq_zero_iff_dvd.mpr (Nat.dvd_refl n)).symm

theorem sum_shift_rolls (n k : Nat) :
    ((List.replicate k Turn.roll).map (Turn.shift n)).sum = k := by
  rw [List.map_replicate, List.sum_replicate_nat]
  exact Nat.mul_one k

theorem sum_shift_rotations (n k : Nat) :
    ((List.replicate k Turn.rotate).map (Turn.shift n)).sum = k * (n - 1) := by
  rw [List.map_replicate, List.sum_replicate_nat]
  rfl

/-! ## Texts of turns -/

/-- A frame of turns moves as many cells as all of its turns together. -/
theorem runFrame_turns (hkeeps : ∀ turn : Turn, setting.library.Keeps turn.word)
    (hnames : Node.Names nodes (turns.map Turn.word)) (step : Nat) (hstack : stack ≠ [])
    (m : Machine) :
    (runFrame setting nested step nodes stack m).1
      = .ok (stack.rotate (turns.map (Turn.shift stack.length)).sum) := by
  induction turns generalizing nodes step stack m with
  | nil =>
    obtain rfl : nodes = [] := List.forall₂_nil_right_iff.mp hnames
    rw [runFrame_nil, List.map_nil, List.sum_nil, List.rotate_zero]
  | cons turn rest ih =>
    obtain ⟨_, nodes, ⟨place, rfl⟩, hrest, rfl⟩ := List.forall₂_cons_right_iff.mp hnames
    have hturned : stack.rotate (turn.shift stack.length) ≠ [] := by
      rwa [Ne, List.rotate_eq_nil_iff]
    rw [runFrame_cons, stepNode_of_ne_branch _ _ (by simp), executeNode_turn turn (hkeeps turn),
      applyCommand_turn turn _ _ hstack]
    dsimp only [List.nil_append]
    -- A turned stack has as many cells, so the rest counts as before.
    rw [ih hrest _ hturned, List.length_rotate, List.rotate_rotate, List.map_cons, List.sum_cons]

section

variable (session : Session) (hkeeps : ∀ turn : Turn, session.library.Keeps turn.word)
  (name : Option String) (verbosity : Nat)

include hkeeps

/-- A text of turns moves as many cells as all of them together. -/
theorem run_turns (turns : List Turn) (hstack : stack ≠ []) :
    (session.run (Turn.program turns) stack name verbosity).result
      = .ok (stack.rotate (turns.map (Turn.shift stack.length)).sum) := by
  have hwords : ∀ word ∈ turns.map Turn.word, IsWord word :=
    List.forall_mem_map.mpr fun turn _ => turn.isWord
  obtain ⟨nodes, hnames, hrun⟩ := run_of_words session hwords name verbosity
  rw [Turn.program, hrun]
  have hkept : ∀ turn : Turn, (session.setting verbosity).library.Keeps turn.word := hkeeps
  exact runFrame_turns hkept hnames 0 hstack _

/-- A single turn of the empty stack is refused for the want of a cell. -/
theorem run_turn_nil (turn : Turn) :
    ∃ failure, (session.run (Turn.program [turn]) [] name verbosity).result
        = .error (.failure failure) ∧ failure.cause = .tooFew turn.word 1 0 := by
  obtain ⟨place, hrun⟩ := run_of_word session turn.isWord name verbosity
  refine ⟨Failure.blamedOn (.onStack turn.word [] (.tooFew turn.word 1 0)) turn.word place [], ?_,
    rfl⟩
  show (session.run turn.word [] name verbosity).result = _
  rw [hrun]
  show (runFrame _ _ 0 _ [] _).1 = _
  have hkept : (session.setting verbosity).library.Keeps turn.word := hkeeps turn
  rw [runFrame_cons, stepNode_of_ne_branch _ _ (by simp), executeNode_turn turn hkept,
    applyCommand_turn_nil]
  rfl

/-- Turns whose shifts make up whole rounds of the stack give it back. -/
theorem run_turns_round {turns : List Turn} (hstack : stack ≠ [])
    (hround : (turns.map (Turn.shift stack.length)).sum ≡ 0 [MOD stack.length]) :
    (session.run (Turn.program turns) stack name verbosity).result = .ok stack := by
  rw [run_turns session hkeeps name verbosity turns hstack, rotate_congr hround, List.rotate_zero]

/-- On a stack of `n` cells, at least one, `roll` and `rot` undo each other, `n` of the one or of
    the other give the stack back, and `k` of the one turn it as far as `n - k` of the other do:
    by `k` cells from its top to its bottom.  The empty stack is refused by both as a trouble of
    the stack. -/
theorem turns_cancel :
    (∀ stack : Stack, stack ≠ [] →
      let turned (turns : List Turn) :=
        (session.run (Turn.program turns) stack name verbosity).result
      turned [.roll, .rotate] = .ok stack ∧ turned [.rotate, .roll] = .ok stack
        ∧ turned (.replicate stack.length .roll) = .ok stack
        ∧ turned (.replicate stack.length .rotate) = .ok stack
        ∧ ∀ k ≤ stack.length,
          turned (.replicate k .roll) = .ok (stack.rotate k)
            ∧ turned (.replicate (stack.length - k) .rotate) = .ok (stack.rotate k))
    ∧ ∀ turn, ∃ failure,
        (session.run (Turn.program [turn]) [] name verbosity).result = .error (.failure failure)
          ∧ failure.cause.category = .stack := by
  constructor
  · -- Each of the sums of shifts is counted modulo the number of cells.
    intro stack hstack turned
    have hpositive : 0 < stack.length := List.length_pos_iff.mpr hstack
    have hround : stack.length ≡ 0 [MOD stack.length] :=
      Nat.modEq_zero_iff_dvd.mpr (Nat.dvd_refl _)
    refine ⟨?_, ?_, ?_, ?_, fun k hk => ⟨?_, ?_⟩⟩
    · refine run_turns_round session hkeeps name verbosity hstack ?_
      have hsum : ([.roll, .rotate].map (Turn.shift stack.length)).sum = stack.length := by
        show 1 + (stack.length - 1 + 0) = stack.length
        omega
      rwa [hsum]
    · refine run_turns_round session hkeeps name verbosity hstack ?_
      have hsum : ([.rotate, .roll].map (Turn.shift stack.length)).sum = stack.length := by
        show stack.length - 1 + (1 + 0) = stack.length
        omega
      rwa [hsum]
    · refine run_turns_round session hkeeps name verbosity hstack ?_
      rwa [sum_shift_rolls]
    · refine run_turns_round session hkeeps name verbosity hstack ?_
      rw [sum_shift_rotations]
      exact Nat.modEq_zero_iff_dvd.mpr (Nat.dvd_mul_right _ _)
    · show (session.run _ stack name verbosity).result = _
      rw [run_turns session hkeeps name verbosity _ hstack, sum_shift_rolls]
    · show (session.run _ stack name verbosity).result = _
      rw [run_turns session hkeeps name verbosity _ hstack, sum_shift_rotations,
        rotate_congr (back_modEq hpositive hk)]
  · intro turn
    obtain ⟨failure, hrun, hcause⟩ := run_turn_nil session hkeeps name verbosity turn
    exact ⟨failure, hrun, by rw [hcause]; rfl⟩

end

/-- Three cells, under a definition of `roll` that is never called. -/
theorem turns_cancel_three :
    let session : Session :=
      { Session.fresh .default with library := Library.fresh.define "roll" ⟨[], .empty none⟩ }
    (∀ turn : Turn, session.library.Keeps turn.word)
      ∧ [Cell.number 3, .text "two", .number 1] ≠ []
      ∧ (session.run (Turn.program [.roll, .rotate]) [.number 3, .text "two", .number 1] none
          0).result = .ok [.number 3, .text "two", .number 1]
      ∧ (session.run (Turn.program [.roll]) [.number 3, .text "two", .number 1] none 0).result
        = .ok [.text "two", .number 1, .number 3] := by
  intro session
  have hstandard : session.library.IsStandard := rfl
  have hkeeps : ∀ turn : Turn, session.library.Keeps turn.word := by
    intro turn
    refine hstandard.keeps ?_
    cases turn <;> rfl
  have hcells : [Cell.number 3, .text "two", .number 1] ≠ [] := List.cons_ne_nil _ _
  obtain ⟨hback, -, -, -, hrolls⟩ := (turns_cancel session hkeeps none 0).1 _ hcells
  exact ⟨hkeeps, hcells, hback, (hrolls 1 (by decide)).1⟩

end StackCalc
