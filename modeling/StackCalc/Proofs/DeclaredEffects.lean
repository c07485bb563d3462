/-
  StackCalc.Proofs.DeclaredEffects

  What the declared stack effect of a built-in function promises to a program.  The check
  of the operands comes first: the depth of the stack, and then a text where a number is
  declared, of which the one nearest to the top is named (`checkInputs_of_text`).  A function
  that passes it takes exactly the cells it declares and pushes as many as it declares, or
  its operands are outside of its domain (`applyFunction_effect`).  In each case the error of
  a word is blamed on the word as it was typed (`word_keeps_effect`).
-/

import StackCalc.Proofs.Faults

namespace StackCalc

/-! ## Texts for numbers -/

/-- The types that built-in functions declare for their operands. -/
def CellType.isOperand : CellType → Bool
  | any | number | cell => true
  | _ => false

/-- A cell, counted from the top, is a text where a number is declared. -/
def TextForNumber (types : List CellType) (stack : Stack) (index : Nat) (text : String) : Prop :=
  types[index]? = some .number ∧ stack[index]? = some (.text text)

/-- The text for a number that is nearest to the top. -/
structure FirstTextForNumber (types : List CellType) (stack : Stack) (index : Nat)
    (text : String) : Prop where
  here : TextForNumber types stack index text
  nearest : ∀ above < index, ∀ other, ¬TextForNumber types stack above other

/-- If there is a text for a number, one of them is nearest to the top. -/
theorem TextForNumber.exists_first {types : List CellType} {stack : Stack} {index : Nat}
    {text : String} (h : TextForNumber types stack index text) :
    ∃ index text, FirstTextForNumber types stack index text := by
  induction index using Nat.strongRecOn generalizing text with
  | ind index ih =>
    by_cases habove : ∃ above < index, ∃ other, TextForNumber types stack above other
    · obtain ⟨above, hlt, other, hother⟩ := habove
      exact ih above hlt hother
    · refine ⟨index, text, h, fun above hlt other hother => ?_⟩
      exact habove ⟨above, hlt, other, hother⟩

theorem CellType.not_accepts_iff {type : CellType} (h : type.isOperand = true) (c : Cell) :
    ¬type.accepts c = true ↔ type = .number ∧ ∃ text, c = .text text := by
  cases type <;> cases c <;> simp_all [isOperand, accepts]

section Checks

variable {types : List CellType} {stack : Stack}

theorem textForNumber_zero {type : CellType} {cell : Cell} {text : String} :
    TextForNumber (type :: types) (cell :: stack) 0 text ↔ type = .number ∧ cell = .text text := by
  simp [TextForNumber]

theorem textForNumber_succ {type : CellType} {cell : Cell} {index : Nat} {text : String} :
    TextForNumber (type :: types) (cell :: stack) (index + 1) text
      ↔ TextForNumber types stack index text := by
  simp [TextForNumber]

/-- The check stops at the text for a number that is nearest to the top. -/
theorem firstMismatch?_of_text (htypes : ∀ type ∈ types, type.isOperand = true) {index : Nat}
    {text : String} (h : FirstTextForNumber types stack index text) (position : Nat) :
    firstMismatch? position types stack = some (position + index, .number, .text text) := by
  induction types generalizing stack index position with
  | nil => cases h.here.1
  | cons type types ih =>
    cases stack with
    | nil => cases h.here.2
    | cons cell rest =>
      have hhead := CellType.not_accepts_iff (htypes type (List.mem_cons_self ..)) cell
      rw [firstMismatch?]
      cases index with
      | zero =>
        obtain ⟨rfl, rfl⟩ := textForNumber_zero.mp h.here
        rw [if_neg (hhead.mpr ⟨rfl, text, rfl⟩), Nat.add_zero]
      | succ index =>
        -- A refused cell here would be a text for a number nearer to the top.
        have haccepts : type.accepts cell = true := by
          by_contra hrefused
          obtain ⟨rfl, other, rfl⟩ := hhead.mp hrefused
          exact h.nearest 0 (Nat.zero_lt_succ _) other (textForNumber_zero.mpr ⟨rfl, rfl⟩)
        have hrest : FirstTextForNumber types rest index text := by
          refine ⟨textForNumber_succ.mp h.here, fun above habove other hother => ?_⟩
          exact h.nearest (above + 1) (by omega) other (textForNumber_succ.mpr hother)
        rw [if_pos haccepts,
          ih (fun type hmem => htypes type (List.mem_cons_of_mem _ hmem)) hrest (position + 1)]
        congr 2
        omega

/-- Without a text for a number nothing is wrong with the cells. -/
theorem firstMismatch?_of_no_text (htypes : ∀ type ∈ types, type.isOperand = true)
    (h : ∀ index text, ¬TextForNumber types stack index text) (position : Nat) :
    firstMismatch? position types stack = none := by
  induction types generalizing stack position with
  | nil => simp [firstMismatch?]
  | cons type types ih =>
    cases stack with
    | nil => rfl
    | cons cell rest =>
      have haccepts : type.accepts cell = true := by
        by_contra hrefused
        obtain ⟨rfl, text, rfl⟩ :=
          (CellType.not_accepts_iff (htypes type (List.mem_cons_self ..)) cell).mp hrefused
        exact h 0 text (textForNumber_zero.mpr ⟨rfl, rfl⟩)
      rw [firstMismatch?, if_pos haccepts]
      exact ih (fun type hmem => htypes type (List.mem_cons_of_mem _ hmem))
        (fun index text htext => h (index + 1) text (textForNumber_succ.mpr htext)) (position + 1)

variable {name : String}

theorem checkInputs_of_text (htypes : ∀ type ∈ types, type.isOperand = true)
    (hdeep : types.length ≤ stack.length) {index : Nat} {text : String}
    (h : FirstTextForNumber types stack index text) :
    checkInputs name types stack
      = .error (.onStack name stack (.wrongType name .number (index + 1) (.text text))) := by
  rw [checkInputs_of_deep name hdeep, firstMismatch?_of_text htypes h 1, Nat.add_comm]
  rfl

theorem checkInputs_of_no_text (htypes : ∀ type ∈ types, type.isOperand = true)
    (hdeep : types.length ≤ stack.length)
    (h : ∀ index text, ¬TextForNumber types stack index text) :
    checkInputs name types stack = .ok () := by
  rw [checkInputs_of_deep name hdeep, firstMismatch?_of_no_text htypes h 1]
  rfl

end Checks

/-! ## Functions -/

theorem functions_operands : ∀ entry ∈ Builtin.functions,
    ∀ type ∈ entry.2.effect.inputTypes, type.isOperand = true := by
  decide

/-- A built-in function declares which cells it takes and which it pushes. -/
theorem functions_declared : ∀ entry ∈ Builtin.functions,
    ∃ inputs outputs, entry.2.effect = ⟨some inputs, some outputs⟩ := by
  intro entry hentry
  have hhonest := functions_honest entry hentry
  obtain ⟨key, function⟩ := entry
  cases function with
  | native operation =>
    obtain ⟨inputs, outputs, heffect, -⟩ := hhonest
    exact ⟨inputs, outputs, heffect⟩
  | print => exact ⟨_, _, rfl⟩
  | random => exact ⟨_, _, rfl⟩

variable {name : String} {stack : Stack} {function : Function}

/-- A function that refuses its stack has no other error. -/
theorem applyFunction_refused {inputs outputs : List CellType} {failure : Failure}
    (heffect : function.effect = ⟨some inputs, some outputs⟩)
    (hcheck : checkInputs name inputs stack = .error failure) (m : Machine) :
    (applyFunction function name stack m).1 = .error (.failure failure) := by
  cases function with
  | native operation =>
    have hinputs : operation.effect.inputs = some inputs := congrArg Effect.inputs heffect
    simp only [applyFunction, applyNative, hinputs, hcheck]
  | print =>
    cases heffect
    simp only [applyFunction, hcheck]
  | random =>
    cases heffect
    simp only [applyFunction, hcheck]

/-- A built-in function that accepts its stack replaces the cells that it takes by as many cells
    as it declares, or has a trouble of its own. -/
theorem applyFunction_effect {key : String} {inputs outputs : List CellType}
    (hentry : (key, function) ∈ Builtin.functions)
    (heffect : function.effect = ⟨some inputs, some outputs⟩)
    (hcheck : checkInputs name inputs stack = .ok ()) (m : Machine) :
    (∃ trouble : Trouble, trouble.IsOwn
        ∧ (applyFunction function name stack m).1 = .error (trouble.error name))
      ∨ ∃ pushed, Fits outputs pushed
        ∧ (applyFunction function name stack m).1
          = .ok (pushed.reverse ++ stack.drop inputs.length) := by
  have hfits := checkInputs_ok_iff.mp hcheck
  cases function with
  | native operation =>
    obtain ⟨inputs', outputs', heffect', hbody⟩ := functions_honest _ hentry
    have heffects : operation.effect = ⟨some inputs, some outputs⟩ := heffect
    cases heffect'.symm.trans heffects
    have hpromised := hbody _ hfits
    simp only [applyFunction, applyNative, heffects, hcheck]
    cases hreply : operation.body (stack.take inputs.length).reverse with
    | error trouble => exact Or.inl ⟨trouble, hpromised.1 trouble hreply, rfl⟩
    | ok reply => exact Or.inr ⟨reply, hpromised.2 reply hreply, rfl⟩
  | print =>
    cases heffect
    cases stack with
    | nil => cases hcheck
    | cons cell rest => exact Or.inr ⟨[], .nil, rfl⟩
  | random =>
    cases heffect
    cases stack with
    | nil => cases hcheck
    | cons cell rest =>
      cases cell with
      | text text => cases hcheck
      | number x =>
        simp only [applyFunction, hcheck]
        cases hlimit : Builtin.countable .random x with
        | error trouble => exact Or.inl ⟨trouble, Faultless.countable _ _ trouble hlimit, rfl⟩
        | ok n => exact Or.inr ⟨[.number _], by simp [CellType.accepts], rfl⟩

/-! ## Words -/

variable {setting : Setting} {depth : Nat} {place : Place} {m : Machine}

/-- A run of a single word ends as its function does, and blames the word. -/
theorem run_word (hfunction : setting.library.functions.get? (Builtin.target name) = some function) :
    ∃ k, (run setting (depth + 1) [.word name place] stack m).1 =
      match (applyFunction function name stack k).1 with
      | .ok next => .ok next
      | .error error => .error (error.blamedOn name (some place) stack) := by
  have hresolve : setting.library.resolve name (some place)
      = .ok ⟨name, .function (Builtin.target name) function⟩ := by
    rw [Library.resolve, hfunction]
  refine ⟨traced setting 0 [.word name place] stack m, ?_⟩
  rw [run, runFrame_cons, stepNode_of_ne_branch _ _ (by simp), executeNode, hresolve]
  dsimp only [execute]
  obtain ⟨result, k⟩ :=
    applyFunction function name stack (traced setting 0 [.word name place] stack m)
  cases result with
  | error error => rfl
  | ok next =>
    dsimp only
    rw [List.append_nil, runFrame_nil]

theorem Trouble.IsOwn.blamed {trouble : Trouble} (h : trouble.IsOwn) (name : String)
    (place : Place) (stack : Stack) :
    ∃ problem, (trouble.error name).blamedOn name (some place) stack
      = .failure ⟨.domain problem, some name, some place, some stack⟩ := by
  cases trouble with
  | refused refusal => exact ⟨_, rfl⟩
  | problem problem => exact ⟨_, rfl⟩
  | fault fault => exact h.elim

/-- Declared stack effects are honest.  A word for a built-in function, typed as its name or as
    another name for it, first needs as many cells as the function declares.  Of these cells none
    may be a text where a number is declared; the one nearest to the top is named.  Then the
    function takes exactly these cells and pushes as many as it declares, or its operands are
    outside of its domain; it has no other error.  All errors are blamed on the word as typed. -/
theorem word_keeps_effect (name : String) (effect : Effect)
    (hdeclared : Library.fresh.signature name = .ok effect) (setting : Setting)
    (hbuiltin : setting.library.functions.get? (Builtin.target name)
      = Library.fresh.functions.get? (Builtin.target name))
    (depth : Nat) (place : Place) (stack : Stack) (m : Machine) :
    ∃ inputs outputs, effect = ⟨some inputs, some outputs⟩
      ∧ (stack.length < inputs.length →
          (run setting (depth + 1) [.word name place] stack m).1
            = .error (.failure ⟨.tooFew name inputs.length stack.length,
                some name, some place, some stack⟩))
      ∧ (inputs.length ≤ stack.length → (∃ index text, TextForNumber inputs stack index text) →
          ∃ index text, FirstTextForNumber inputs stack index text
            ∧ (run setting (depth + 1) [.word name place] stack m).1
              = .error (.failure ⟨.wrongType name .number (index + 1) (.text text),
                  some name, some place, some stack⟩))
      ∧ (inputs.length ≤ stack.length → (∀ index text, ¬TextForNumber inputs stack index text) →
          (∃ problem, (run setting (depth + 1) [.word name place] stack m).1
            = .error (.failure ⟨.domain problem, some name, some place, some stack⟩))
          ∨ ∃ pushed, pushed.length = outputs.length ∧ Fits outputs pushed
            ∧ (run setting (depth + 1) [.word name place] stack m).1
              = .ok (pushed.reverse ++ stack.drop inputs.length)) := by
  obtain ⟨function, hfunction, rfl⟩ : ∃ function,
      Library.fresh.functions.get? (Builtin.target name) = some function
        ∧ function.effect = effect := by
    rw [Library.signature] at hdeclared
    split at hdeclared
    · exact ⟨_, ‹_›, Except.ok.inj hdeclared⟩
    · cases hdeclared
  have hentry : (Builtin.target name, function) ∈ Builtin.functions := Table.mem_of_find? hfunction
  obtain ⟨inputs, outputs, heffect⟩ := functions_declared _ hentry
  have htypes : ∀ type ∈ inputs, type.isOperand = true := by
    have hoperands := functions_operands _ hentry
    rw [heffect] at hoperands
    exact hoperands
  obtain ⟨k, hrun⟩ := @run_word name stack function setting depth place m (hbuiltin.trans hfunction)
  rw [hrun]
  refine ⟨inputs, outputs, heffect, fun hshort => ?_, fun hdeep htext => ?_,
    fun hdeep hnone => ?_⟩
  · rw [applyFunction_refused heffect (checkInputs_of_short name hshort)]
    rfl
  · obtain ⟨_, _, htext⟩ := htext
    obtain ⟨index, text, hfirst⟩ := htext.exists_first
    refine ⟨index, text, hfirst, ?_⟩
    rw [applyFunction_refused heffect (checkInputs_of_text htypes hdeep hfirst)]
    rfl
  · have hcheck : checkInputs name inputs stack = .ok () :=
      checkInputs_of_no_text htypes hdeep hnone
    obtain ⟨trouble, hown, htrouble⟩ | ⟨pushed, hfits, hpushed⟩ :=
      applyFunction_effect hentry heffect hcheck k
    · obtain ⟨problem, hproblem⟩ := hown.blamed name place stack
      rw [htrouble]
      exact Or.inl ⟨problem, congrArg _ hproblem⟩
    · rw [hpushed]
      exact Or.inr ⟨pushed, hfits.length_eq.symm, hfits, rfl⟩

/-- Of two operands of `^` the lower one is a text: it is named as the second from the top, and
    the error is blamed on the word as it was typed. -/
theorem word_keeps_effect_power :
    Library.fresh.signature "^" = .ok ⟨some [.number, .number], some [.number]⟩
      ∧ (run ⟨.fresh, .default, 0⟩ 1 [.word "^" .unknown] [.number 2, .text "a"]
          (.start .fresh 0)).1
        = .error (.failure ⟨.wrongType "^" .number 2 (.text "a"), some "^", some .unknown,
            some [.number 2, .text "a"]⟩) := by
  have hdeclared : Library.fresh.signature "^"
      = .ok ⟨some [.number, .number], some [.number]⟩ := rfl
  have htext : TextForNumber [.number, .number] [.number 2, .text "a"] 1 "a" := ⟨rfl, rfl⟩
  refine ⟨hdeclared, ?_⟩
  obtain ⟨inputs, outputs, heffect, -, htyped, -⟩ := word_keeps_effect "^" _ hdeclared
    ⟨.fresh, .default, 0⟩ rfl 0 .unknown [.number 2, .text "a"] (.start .fresh 0)
  cases heffect
  obtain ⟨index, text, hfirst, hrun⟩ := htyped (Nat.le_refl 2) ⟨1, "a", htext⟩
  -- Only the second cell is a text.
  obtain ⟨hnumber, hcell⟩ := hfirst.here
  match index with
  | 0 => cases hcell
  | 1 =>
    cases hcell
    exact hrun
  | _ + 2 => cases hnumber

end StackCalc
