/-
  StackCalc.Proofs.Faults

  Troubles of the machinery that a run can end with.  With built-in operations and
  definitions from texts there are two: frames nested too deep, and a sum that is no double,
  which only the sum and the average of a whole stack can have (`run_fault`).  All other
  troubles of operations are failures with a domain for their cause.
-/

import StackCalc.Proofs.Binding
import StackCalc.Proofs.Composition
import StackCalc.Proofs.Keywords
import StackCalc.Proofs.Reachability
import StackCalc.Proofs.StackEffects

namespace StackCalc

/-! ## Functions and commands -/

variable {name : String} {stack : Stack} {error : Error} {fault : Fault} {m m' : Machine}

/-- A trouble of its own makes an operation fail for its operands. -/
theorem Trouble.IsOwn.domain {trouble : Trouble} (h : trouble.IsOwn) (name : String) :
    ∃ failure, trouble.error name = .failure failure ∧ failure.cause.category = .domain := by
  cases trouble with
  | refused refusal => exact ⟨_, rfl, rfl⟩
  | problem problem => exact ⟨_, rfl, rfl⟩
  | fault fault => exact h.elim

theorem applyNative_trouble {operation : Native} (hhonest : operation.Honest)
    (h : applyNative operation name stack = .error error) :
    (∃ failure, checkInputs name operation.effect.inputTypes stack = .error failure
        ∧ error = .failure failure)
      ∨ ∃ trouble : Trouble, trouble.IsOwn ∧ error = trouble.error name := by
  obtain ⟨inputs, outputs, heffect, hbody⟩ := hhonest
  simp only [applyNative, heffect] at h
  rw [heffect, Effect.inputTypes, Option.getD_some]
  cases hcheck : checkInputs name inputs stack with
  | error failure =>
    rw [hcheck] at h
    cases h
    exact Or.inl ⟨failure, rfl, rfl⟩
  | ok _ =>
    have hpromised := hbody _ (checkInputs_ok_iff.mp hcheck)
    rw [hcheck] at h
    dsimp only at h
    cases hreply : operation.body (stack.take inputs.length).reverse with
    | ok reply =>
      rw [hreply] at h
      cases h
    | error trouble =>
      rw [hreply] at h
      cases h
      exact Or.inr ⟨trouble, hpromised.1 trouble hreply, rfl⟩

/-- A built-in function that ends with an error refuses its stack, or has a trouble of its
    own. -/
theorem applyFunction_trouble {key : String} {function : Function}
    (hentry : (key, function) ∈ Builtin.functions)
    (h : applyFunction function name stack m = (.error error, m')) :
    (∃ failure, checkInputs name function.effect.inputTypes stack = .error failure
        ∧ error = .failure failure)
      ∨ ∃ trouble : Trouble, trouble.IsOwn ∧ error = trouble.error name := by
  cases function with
  | native operation => exact applyNative_trouble (functions_honest _ hentry) (Prod.mk.inj h).1
  | print =>
    simp only [applyFunction] at h
    split at h
    · cases h
      exact Or.inl ⟨_, ‹_›, rfl⟩
    · cases h
    · cases h
  | random =>
    simp only [applyFunction] at h
    split at h
    · cases h
      exact Or.inl ⟨_, ‹_›, rfl⟩
    · -- The limit is read before a number is drawn.
      split at h
      · rename_i trouble htrouble
        cases h
        exact Or.inr ⟨trouble, Faultless.countable _ _ trouble htrouble, rfl⟩
      · cases h
    · cases h

/-- The commands that add up the whole stack. -/
def Builtin.sums : List String := ["sum_all", "avg_all"]

theorem sums_of_reduce : ∀ entry ∈ Builtin.commands,
    entry.2 = .reduce .sum ∨ entry.2 = .reduce .average → entry.1 ∈ Builtin.sums := by
  simp [Builtin.commands, Builtin.sums]

theorem summed_error {x : Except Double.ExactSum.Trouble Float} (h : summed x = .error fault) :
    ∃ trouble, fault = .sum trouble := by
  cases x with
  | ok y => cases h
  | error trouble =>
    cases h
    exact ⟨trouble, rfl⟩

/-- Of the reductions only those that add up have a fault. -/
theorem Reduction.apply_error {reduction : Reduction} {first : Float} {rest : List Float}
    (h : reduction.apply first rest = .error fault) :
    (reduction = .sum ∨ reduction = .average) ∧ ∃ trouble, fault = .sum trouble := by
  cases reduction with
  | sum => exact ⟨Or.inl rfl, summed_error h⟩
  | average =>
    rw [apply] at h
    refine ⟨Or.inr rfl, ?_⟩
    cases hsum : summed (Double.exactSum (first :: rest)) with
    | ok x =>
      rw [hsum] at h
      cases h
    | error own =>
      rw [hsum] at h
      cases h
      exact summed_error hsum
  | product | minimum | maximum => cases h

theorem applyCommand_fault {key : String} {command : Command} {config : Config}
    (hentry : (key, command) ∈ Builtin.commands)
    (h : applyCommand config command name stack m = (.error (.fault fault), m')) :
    key ∈ Builtin.sums ∧ ∃ trouble, fault = .sum trouble := by
  cases command with
  | clear | recallSlot slot => cases h
  | roll | rotate | storeSlot slot | scale factor =>
    simp only [applyCommand] at h
    split at h <;> cases h
  | reduce reduction =>
    simp only [applyCommand] at h
    split at h
    · cases h
    · split at h
      · cases h
      · split at h
        · split at h
          · cases h
          · rename_i own hown
            cases h
            obtain ⟨hreduction, hsum⟩ := Reduction.apply_error hown
            refine ⟨sums_of_reduce _ hentry ?_, hsum⟩
            obtain rfl | rfl := hreduction
            · exact Or.inl rfl
            · exact Or.inr rfl
        · cases h

/-! ## Steps -/

/-- A known comparison of two numbers has an answer, and all other cells are refused. -/
theorem selectBranch_no_fault {test : Test} (hknown : test.Known) :
    selectBranch test stack ≠ .error (.fault fault) := by
  match stack with
  | [] => exact nofun
  | [_] => exact nofun
  | .text _ :: _ :: _ => exact nofun
  | .number _ :: .text _ :: _ => exact nofun
  | .number y :: .number x :: rest =>
    rw [selectBranch_numbers]
    cases test with
    | unknown keyword => exact absurd rfl (hknown keyword)
    | equal | different | greater | less => exact nofun

variable {setting : Setting} {nested : Nested} {node : Node}

/-- A step ends with a fault if a run that it starts does, or it adds up the stack. -/
theorem stepNode_fault (hstandard : setting.library.IsStandard) (hknown : node.Known)
    (h : stepNode setting nested node stack m = (.error (.fault fault), m')) :
    (∃ body s k, node.Runs setting.library body ∧ nested body s k = (.error (.fault fault), m'))
      ∨ ∃ word place trouble, node = .word word place ∧ Builtin.target word ∈ Builtin.sums
        ∧ fault = .sum trouble := by
  cases node with
  | cell c => cases h
  | word word place =>
    have h := (stepNode_error_iff (by simp)).mp h
    obtain ⟨function, hentry, hresolve⟩ | ⟨command, hentry, hresolve⟩ |
      ⟨program, -, hresolve⟩ | hresolve := hstandard.resolve_cases word (some place)
    · simp only [executeNode, hresolve, execute] at h
      obtain ⟨failure, -, hfailure⟩ | ⟨trouble, hown, htrouble⟩ := applyFunction_trouble hentry h
      · cases hfailure
      · obtain ⟨failure, hfailure, -⟩ := hown.domain word
        cases htrouble.trans hfailure
    · simp only [executeNode, hresolve, execute] at h
      obtain ⟨hsums, trouble, htrouble⟩ := applyCommand_fault hentry h
      exact Or.inr ⟨word, place, trouble, rfl, hsums, htrouble⟩
    · simp only [executeNode, hresolve, execute] at h
      exact Or.inl ⟨_, stack, m, .word hresolve, h⟩
    · simp only [executeNode, hresolve] at h
      cases h
  | block body combinator place =>
    have h := (stepNode_error_iff (by simp)).mp h
    obtain ⟨s, k, -, hrun⟩ | ⟨cause, -, hcause⟩ | ⟨keyword, hunknown, -⟩ := applyBlock_error h
    · exact Or.inl ⟨body, s, k, .block .., hrun⟩
    · cases hcause
    · exact absurd hunknown (hknown.1 keyword)
  | branch test consequent alternative place =>
    rw [stepNode_branch] at h
    split at h
    · cases h
      exact absurd ‹_› (selectBranch_no_fault hknown.1)
    · cases h
  | store target place =>
    have h := (stepNode_error_iff (by simp)).mp h
    cases stack <;> cases h
  | fetch target place =>
    have h := (stepNode_error_iff (by simp)).mp h
    rw [executeNode] at h
    split at h <;> cases h

/-! ## Runs -/

/-- A fault that a program has because of a sum over the whole stack. -/
def Fault.IsOfSum (library : Library) (nodes : List Node) (fault : Fault) : Prop :=
  ∃ word place trouble, Reachable library nodes (.word word place)
    ∧ Builtin.target word ∈ Builtin.sums ∧ fault = .sum trouble

theorem Fault.IsOfSum.of_reachable {library : Library} {p q : List Node}
    (h : fault.IsOfSum library q) (hq : ∀ x ∈ q, Reachable library p x) :
    fault.IsOfSum library p := by
  obtain ⟨word, place, trouble, hreachable, hsums, htrouble⟩ := h
  exact ⟨word, place, trouble, hreachable.trans hq, hsums, htrouble⟩

theorem runFrame_fault (hstandard : setting.library.IsStandard)
    (hnested : ∀ body, Throughout setting.library Node.Known body → ∀ s k,
      nested body s k = (.error (.fault fault), m') →
        fault = .tooDeep ∨ fault.IsOfSum setting.library body)
    {queue : List Node} (hknown : Throughout setting.library Node.Known queue) {step : Nat}
    (h : runFrame setting nested step queue stack m = (.error (.fault fault), m')) :
    fault = .tooDeep ∨ fault.IsOfSum setting.library queue := by
  induction queue using frameInduction generalizing stack step m with
  | nil =>
    rw [runFrame_nil] at h
    cases h
  | cons node rest ih =>
    rw [runFrame_cons] at h
    split at h
    · rename_i own k hstep
      cases own with
      | failure failure => cases h
      | fault own =>
        -- A fault is blamed on no step, so the frame ends with the fault of its step.
        cases h
        obtain ⟨body, s, k', hruns, hrun⟩ | ⟨word, place, trouble, rfl, hsums, htrouble⟩ :=
          stepNode_fault hstandard hknown.head hstep
        · exact (hnested body (hknown.inside hruns) s k' hrun).imp_right
            (·.of_reachable hruns.reachable)
        · exact Or.inr ⟨word, place, trouble, .own (List.mem_cons_self ..), hsums, htrouble⟩
    · rename_i next front k hstep
      exact (ih front (stepNode_size hstep) (hknown.behind hstep) h).imp_right
        (·.of_reachable (stepNode_reachable hstep))

/-- A run of known nodes has no fault but frames nested too deep, or a sum over the whole
    stack somewhere in the program. -/
theorem run_fault (hstandard : setting.library.IsStandard) {depth : Nat} {nodes : List Node}
    (hknown : Throughout setting.library Node.Known nodes)
    (h : run setting depth nodes stack m = (.error (.fault fault), m')) :
    fault = .tooDeep ∨ fault.IsOfSum setting.library nodes := by
  induction depth generalizing nodes stack m with
  | zero =>
    cases h
    exact Or.inl rfl
  | succ depth ih => exact runFrame_fault hstandard (fun _ hbody _ _ hrun => ih hbody hrun) hknown h

/-! ## Sessions -/

/-- A program that was assembled from words of a text. -/
def Program.IsAssembled (program : Program) : Prop :=
  ∃ xs extent, (∀ x ∈ xs, Token.Genuine x) ∧ assemble xs extent = .ok program

/-- A library of built-in operations and of definitions from texts. -/
structure Library.IsOrdinary (library : Library) : Prop where
  standard : library.IsStandard
  assembled : ∀ word program, library.definitions.get? word = some program → program.IsAssembled

namespace Library

variable {library : Library}

theorem fresh_isOrdinary : fresh.IsOrdinary := ⟨rfl, nofun⟩

/-- Definitions without unknown keywords bring none in. -/
theorem throughout_known
    (hbodies : ∀ word program, library.definitions.get? word = some program →
      Node.KnownAll program.nodes) {nodes : List Node} (hnodes : Node.KnownAll nodes) :
    Throughout library Node.Known nodes := by
  refine .of_closed (Node.knownAll_iff.mp hnodes) ?_ ?_
  · rintro test consequent alternative place ⟨-, hconsequent, halternative⟩ x hx
    obtain hx | hx := List.mem_append.mp hx
    · exact Node.knownAll_iff.mp hconsequent x hx
    · exact Node.knownAll_iff.mp halternative x hx
  · intro outer body houter hruns
    cases hruns with
    | block body combinator place => exact Node.knownAll_iff.mp houter.2
    | word resolved => exact Node.knownAll_iff.mp (hbodies _ _ (definition_of_resolve resolved))

/-- Definitions from texts bring no unknown keywords in. -/
theorem IsOrdinary.throughout (h : library.IsOrdinary) {nodes : List Node}
    (hnodes : Node.KnownAll nodes) : Throughout library Node.Known nodes := by
  refine throughout_known (fun word program hprogram => ?_) hnodes
  obtain ⟨xs, extent, hxs, hassemble⟩ := h.assembled word program hprogram
  exact known_of_assemble hxs hassemble

/-- A library stays ordinary under the definitions of a text. -/
theorem IsOrdinary.overwritten (h : library.IsOrdinary) {origin : Option String}
    {definitions : List (Lexeme × List Lexeme)} {table : Table Program}
    (hgenuine : ∀ head body, (head, body) ∈ definitions → ∀ x ∈ body, Lexeme.Genuine x)
    (hoverwrites : Overwrites origin definitions library.definitions table) :
    IsOrdinary { library with definitions := table } := by
  refine ⟨h.standard, fun word program hprogram => ?_⟩
  -- A definition of the text counts before one that was there.
  have hword := hoverwrites word
  split at hword
  · rename_i head body hlast
    have hmem : (head, body) ∈ definitions :=
      List.mem_reverse.mp (List.mem_of_find?_eq_some hlast)
    obtain ⟨last, hassemble, hbound⟩ := hword
    cases hbound.symm.trans hprogram
    exact ⟨_, _, genuine_tokens origin (hgenuine head body hmem), hassemble⟩
  · exact h.assembled word program (hword ▸ hprogram)

end Library

namespace Session

variable {session : Session} {source : String}

/-- A session whose definitions come from texts stays one by a run. -/
theorem run_isOrdinary (h : session.library.IsOrdinary) (stack : Stack) (name : Option String)
    (verbosity : Nat) : (session.run source stack name verbosity).session.library.IsOrdinary := by
  cases hparse : parse source name with
  | error fault =>
    rw [run_of_parse_error session hparse]
    exact h
  | ok clauses =>
    obtain ⟨-, table, program, remarks, hoverwrites, -, hrun⟩ :=
      run_of_parse session hparse stack verbosity
    rw [hrun]
    exact h.overwritten (fun _ _ hmem => (items_of_parse hparse hmem).2) hoverwrites

/-- The fault of a run comes from the program of its text. -/
theorem run_fault (h : session.library.IsOrdinary) {stack : Stack} {name : Option String}
    {verbosity : Nat} {fault : Fault}
    (hfault : (session.run source stack name verbosity).result = .error (.fault fault)) :
    fault = .tooDeep ∨ ∃ clauses program, parse source name = .ok clauses
      ∧ assemble (tokens name (termWords clauses)) (.empty name) = .ok program
      ∧ fault.IsOfSum (session.run source stack name verbosity).session.library
          program.nodes := by
  have hordinary : (session.run source stack name verbosity).session.library.IsOrdinary :=
    run_isOrdinary h stack name verbosity
  cases hparse : parse source name with
  | error problem =>
    rw [run_of_parse_error session hparse] at hfault
    cases hfault
  | ok clauses =>
    obtain ⟨-, table, program, remarks, -, hassemble, hrun⟩ :=
      run_of_parse session hparse stack verbosity
    rw [hrun] at hordinary hfault ⊢
    have hknown := known_of_assemble (genuine_tokens name (terms_of_parse hparse).2) hassemble
    obtain hdeep | hsum := StackCalc.run_fault hordinary.standard (hordinary.throughout hknown)
      (Prod.ext hfault rfl)
    · exact Or.inl hdeep
    · exact Or.inr ⟨clauses, program, rfl, hassemble, hsum⟩

end Session

/-- In a session of built-in operations and definitions from texts a run ends with a stack,
    with a failure, or with one of two faults: its frames are nested too deep, or it adds up
    a whole stack whose sum is no double.  The definitions after the run come from texts again.
    A built-in function that takes its operands but has no result fails for its domain. -/
theorem run_faults (session : Session) (hordinary : session.library.IsOrdinary)
    (source : String) (stack : Stack) (name : Option String) (verbosity : Nat) :
    (session.run source stack name verbosity).session.library.IsOrdinary
      ∧ (∀ fault, (session.run source stack name verbosity).result = .error (.fault fault) →
          fault = .tooDeep ∨ ∃ clauses program, parse source name = .ok clauses
            ∧ assemble (Session.tokens name (termWords clauses)) (.empty name) = .ok program
            ∧ fault.IsOfSum (session.run source stack name verbosity).session.library program.nodes)
      ∧ ∀ key function, (key, function) ∈ Builtin.functions → ∀ word operands m m' error,
          checkInputs word function.effect.inputTypes operands = .ok () →
          applyFunction function word operands m = (.error error, m') →
          ∃ failure, error = .failure failure ∧ failure.cause.category = .domain := by
  refine ⟨Session.run_isOrdinary hordinary stack name verbosity,
    fun fault hfault => Session.run_fault hordinary hfault, ?_⟩
  intro key function hentry word operands m m' error hcheck happly
  obtain ⟨failure, hrefused, -⟩ | ⟨trouble, hown, rfl⟩ := applyFunction_trouble hentry happly
  · rw [hcheck] at hrefused
    cases hrefused
  · exact hown.domain word

/-! ## A sum that overflows -/

/-- The fault that a run ended with, if it did. -/
def faultOf? {α : Type} : Except Error α → Option Fault
  | .error (.fault fault) => some fault
  | _ => none

theorem eq_of_faultOf? {α : Type} {x : Except Error α} (h : faultOf? x = some fault) :
    x = .error (.fault fault) := by
  unfold faultOf? at h
  split at h
  · cases h
    rfl
  · cases h

/-- The result of a text without definitions is that of the structural meaning. -/
theorem Session.result_of_terms (session : Session) {source : String} {name : Option String}
    {clauses : List Clause} (hparse : parse source name = .ok clauses)
    (hdefinitions : definitionsOf clauses = []) (stack : Stack) (verbosity : Nat) :
    (session.run source stack name verbosity).result
      = (assemble (tokens name (termWords clauses)) (.empty name)).bind fun program =>
          (evaluate (session.setting verbosity) depthLimit program.nodes stack
            session.machine).1 := by
  simp only [run, hparse, hdefinitions, bindAll]
  cases assemble (tokens name (termWords clauses)) (.empty name) with
  | error error => rfl
  | ok program => exact run_result ..

theorem sum_overflows :
    ((Session.fresh .default).run "1e308 1e308 +_" [] none 0).result
      = .error (.fault (.sum .overflow)) := by
  have hwords : scan "1e308 1e308 +_"
      = ⟨[⟨.number, "1e308", 1, 1⟩, ⟨.number, "1e308", 1, 7⟩, ⟨.word, "+_", 1, 13⟩], none⟩ := by
    decide +kernel
  have hparse : parse "1e308 1e308 +_" none
      = .ok [.term [⟨.number, "1e308", 1, 1⟩], .term [⟨.number, "1e308", 1, 7⟩],
          .term [⟨.word, "+_", 1, 13⟩]] := by
    simp only [parse, hwords]
    rfl
  rw [Session.result_of_terms _ hparse rfl]
  exact eq_of_faultOf? (by decide +kernel)

/-- The sum of two numbers near the end of the doubles is a fault that comes from the word for
    the sum. -/
theorem run_faults_overflow :
    (Session.fresh .default).library.IsOrdinary
      ∧ ∃ clauses program, parse "1e308 1e308 +_" none = .ok clauses
        ∧ assemble (Session.tokens none (termWords clauses)) (.empty none) = .ok program
        ∧ (Fault.sum .overflow).IsOfSum
          ((Session.fresh .default).run "1e308 1e308 +_" [] none 0).session.library
          program.nodes := by
  refine ⟨Library.fresh_isOrdinary, ?_⟩
  obtain ⟨-, hfaults, -⟩ :=
    run_faults (.fresh .default) Library.fresh_isOrdinary "1e308 1e308 +_" [] none 0
  obtain hdeep | hsum := hfaults _ sum_overflows
  · cases hdeep
  · exact hsum

/-- Frames nested too deep are not the only fault that ends a run. -/
theorem run_not_only_tooDeep :
    ¬∀ session : Session, session.library.IsOrdinary → ∀ source stack name verbosity fault,
      (session.run source stack name verbosity).result = .error (.fault fault) →
        fault = .tooDeep := by
  intro h
  cases h _ Library.fresh_isOrdinary _ _ _ _ _ sum_overflows

end StackCalc
