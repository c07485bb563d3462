/-
  StackCalc.Proofs.NativeCalls

  What a built-in function does with the cells on top of the stack.  It gives other cells for them
  (`Produces`) or fails (`Declines`), whatever stack lies below and whatever name it is called by,
  and for a native function its body decides which, once the cells are of the types asked for
  (`produces_of_body`, `declines_of_body`).
-/

import StackCalc.Proofs.Faults

namespace StackCalc
namespace Builtin

/-- A built-in function gives cells for cells: on every stack with the ones on top, under whatever
    name it is called, it puts the others in their place, and nothing else changes.  Both are
    listed from the top. -/
def Produces (key : String) (cells results : List Cell) : Prop :=
  ∃ function, Table.find? key functions = some function ∧ ∀ name below m,
    applyFunction function name (cells ++ below) m = (.ok (results ++ below), m)

/-- A built-in function declines cells: it fails on every stack with the cells on top, as it would
    for any operands out of its domain, and nothing changes. -/
def Declines (key : String) (cells : List Cell) : Prop :=
  ∃ function, Table.find? key functions = some function ∧ ∀ name below m, ∃ failure,
    applyFunction function name (cells ++ below) m = (.error (.failure failure), m)
      ∧ failure.cause.category = .domain

variable {key : String} {cells results results' : List Cell}

theorem Produces.unique (h : Produces key cells results) (h' : Produces key cells results') :
    results = results' := by
  obtain ⟨function, hfind, happly⟩ := h
  obtain ⟨function', hfind', happly'⟩ := h'
  -- Both speak of the same function, so any stack and any machine tell what it gives.
  obtain rfl : function = function' := Option.some.inj (hfind.symm.trans hfind')
  have hsame := (happly key [] (.start .fresh 0)).symm.trans (happly' key [] (.start .fresh 0))
  simpa using hsame

theorem Produces.not_declines (h : Produces key cells results) : ¬Declines key cells := by
  rintro ⟨function', hfind', happly'⟩
  obtain ⟨function, hfind, happly⟩ := h
  obtain rfl : function = function' := Option.some.inj (hfind.symm.trans hfind')
  obtain ⟨failure, hfailure, -⟩ := happly' key [] (.start .fresh 0)
  rw [happly] at hfailure
  cases hfailure

variable {operation : Native} {types outputs : List CellType}

/-- A native function is given the cells on top, if they are of the types asked for. -/
theorem applyFunction_of_fits (heffect : operation.effect = ⟨some types, some outputs⟩)
    (hcells : Fits types cells) (name : String) (below : Stack) (m : Machine) :
    applyFunction (.native operation) name (cells ++ below) m
      = (match operation.body cells.reverse with
        | .ok reply => .ok (reply.reverse ++ below)
        | .error trouble => .error (trouble.error name), m) := by
  have hlength : types.length = cells.length := hcells.length_eq
  have hcheck : checkInputs name types (cells ++ below) = .ok () := by
    rw [checkInputs_ok_iff, hlength, List.take_left]
    exact hcells
  cases hbody : operation.body cells.reverse with
  | ok reply =>
    simp only [applyFunction, applyNative, heffect, hcheck, hlength, List.take_left,
      List.drop_left, hbody]
  | error trouble =>
    simp only [applyFunction, applyNative, heffect, hcheck, hlength, List.take_left, hbody]

theorem produces_of_body (hfind : Table.find? key functions = some (.native operation))
    (heffect : operation.effect = ⟨some types, some outputs⟩) (hcells : Fits types cells)
    (hbody : operation.body cells.reverse = .ok results.reverse) : Produces key cells results := by
  refine ⟨_, hfind, fun name below m => ?_⟩
  rw [applyFunction_of_fits heffect hcells, hbody]
  dsimp only
  rw [List.reverse_reverse]

theorem declines_of_body (hfind : Table.find? key functions = some (.native operation))
    (heffect : operation.effect = ⟨some types, some outputs⟩) (hcells : Fits types cells)
    {trouble : Trouble} (hbody : operation.body cells.reverse = .error trouble)
    (hown : trouble.IsOwn) : Declines key cells := by
  refine ⟨_, hfind, fun name below m => ?_⟩
  obtain ⟨failure, hfailure, hdomain⟩ := hown.domain name
  refine ⟨failure, ?_, hdomain⟩
  rw [applyFunction_of_fits heffect hcells, hbody, ← hfailure]

end Builtin
end StackCalc
