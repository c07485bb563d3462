/-
  StackCalc.Proofs.Locality

  Cells below.  An operation that asks for cells of certain types looks at no others: on a
  stack with a base below it has the result that it has on the stack alone, over the base.
  The one exception is a stack with too few cells, where the base would be taken instead.
  A program of such operations, calls, conditionals and directives has this property as a
  whole (`run_on_base`); blocks, operations on the whole stack and random numbers are ruled
  out.
-/

import StackCalc.Proofs.Blame
import StackCalc.Proofs.Composition
import StackCalc.Proofs.Ending
import StackCalc.Proofs.Reachability
import StackCalc.Proofs.StackEffects

namespace StackCalc

/-! ## Local programs -/

/-- The operations on the whole stack, and the random numbers. -/
def Builtin.sweeping : List String :=
  ["cls", "roll", "rot", "sum_all", "prod_all", "min_all", "max_all", "avg_all", "rand"]

/-- A node whose step looks at no cells but those that it asks for.  A word for a definition
    is one if the nodes of the definition are. -/
def Node.IsLocal : Node → Prop
  | block .. => False
  | word name _ => Builtin.target name ∉ Builtin.sweeping
  | _ => True

/-- A failure with a base below the stack that it names. -/
def Failure.over (base : Stack) (failure : Failure) : Failure :=
  { failure with stack := failure.stack.map (· ++ base) }

/-- An error with a base below the stack that it names. -/
def Error.over (base : Stack) : Error → Error
  | failure x => failure (x.over base)
  | fault x => fault x

/-- A reply on a stack, and the reply on the stack with a base below.  A stack that has too
    few cells tells nothing about the second reply. -/
def Reply.OnBase {α : Type} (base : Stack) (lift : α → α) (x y : Reply α) : Prop :=
  (∃ failure m, x = (.error (.failure failure), m) ∧ failure.cause.category = .stack)
    ∨ (∃ error m n, x = (.error error, m) ∧ y = (.error (error.over base), n)
      ∧ Machine.Alike m n)
    ∨ ∃ a m n, x = (.ok a, m) ∧ y = (.ok (lift a), n) ∧ Machine.Alike m n

namespace Reply.OnBase

variable {α : Type} {base : Stack} {lift : α → α} {m n : Machine}

theorem underflow {failure : Failure} {y : Reply α} (h : failure.cause.category = .stack) :
    OnBase base lift (.error (.failure failure), m) y :=
  Or.inl ⟨failure, m, rfl, h⟩

theorem error (error : Error) (h : Machine.Alike m n) :
    OnBase base lift (.error error, m) (.error (error.over base), n) :=
  Or.inr (Or.inl ⟨error, m, n, rfl, rfl, h⟩)

theorem ok (a : α) (h : Machine.Alike m n) : OnBase base lift (.ok a, m) (.ok (lift a), n) :=
  Or.inr (Or.inr ⟨a, m, n, rfl, rfl, h⟩)

/-- An error that names no stack is the same on every base. -/
theorem unnamed {error : Error} (herror : error.over base = error) (h : Machine.Alike m n) :
    OnBase base lift (.error error, m) (.error error, n) :=
  Or.inr (Or.inl ⟨error, m, n, rfl, by rw [herror], h⟩)

end Reply.OnBase

/-- A way to run a body that has on every stack the reply that it has with a base below. -/
def RunsOnBase (base : Stack) (run : Stack → Machine → Reply Stack) : Prop :=
  ∀ stack m n, Machine.Alike m n →
    Reply.OnBase base (· ++ base) (run stack m) (run (stack ++ base) n)

variable {base stack : Stack} {m n : Machine}

/-! ## Functions and commands -/

theorem checkInputs_over (name : String) {types : List CellType}
    (hdeep : types.length ≤ stack.length) (base : Stack) :
    checkInputs name types (stack ++ base)
      = (checkInputs name types stack).mapError (Failure.over base) := by
  have hdeeper : types.length ≤ (stack ++ base).length := by
    rw [List.length_append]
    omega
  rw [checkInputs_of_deep name hdeeper, checkInputs_of_deep name hdeep,
    firstMismatch?_append hdeep]
  cases firstMismatch? 1 types stack <;> rfl

theorem checkInputs_underflow (name : String) {types : List CellType}
    (hshort : stack.length < types.length) :
    ∃ failure, checkInputs name types stack = .error failure
      ∧ failure.cause.category = .stack :=
  ⟨_, checkInputs_of_short name hshort, rfl⟩

theorem Trouble.over_error (trouble : Trouble) (name : String) (base : Stack) :
    (trouble.error name).over base = trouble.error name := by
  cases trouble <;> rfl

theorem applyNative_onBase {operation : Native} {inputs outputs : List CellType}
    (heffect : operation.effect = ⟨some inputs, some outputs⟩) (name : String)
    (h : Machine.Alike m n) :
    Reply.OnBase base (· ++ base) (applyNative operation name stack, m)
      (applyNative operation name (stack ++ base), n) := by
  simp only [applyNative, heffect]
  by_cases hdeep : inputs.length ≤ stack.length
  · -- Neither the check nor the operation gets to see a cell of the base.
    rw [checkInputs_over name hdeep, List.take_append_of_le_length hdeep,
      List.drop_append_of_le_length hdeep]
    cases checkInputs name inputs stack with
    | error failure => exact .error _ h
    | ok _ =>
      dsimp only [Except.mapError]
      cases operation.body (stack.take inputs.length).reverse with
      | ok reply =>
        dsimp only
        rw [← List.append_assoc]
        exact .ok _ h
      | error trouble => exact .unnamed (trouble.over_error name base) h
  · -- Too few cells: with the base below, the check could pass.
    obtain ⟨failure, hcheck, hcategory⟩ := checkInputs_underflow name (Nat.lt_of_not_le hdeep)
    rw [hcheck]
    exact .underflow hcategory

theorem random_sweeping : ∀ entry ∈ Builtin.functions, entry.2 = .random →
    entry.1 ∈ Builtin.sweeping := by
  simp [Builtin.functions, Builtin.sweeping]

theorem commands_local : ∀ entry ∈ Builtin.commands, entry.1 ∉ Builtin.sweeping →
    (∃ slot, entry.2 = .storeSlot slot) ∨ (∃ slot, entry.2 = .recallSlot slot)
      ∨ ∃ factor, entry.2 = .scale factor := by
  simp [Builtin.commands, Builtin.sweeping]

theorem applyFunction_onBase {key : String} {function : Function}
    (hentry : (key, function) ∈ Builtin.functions) (hlocal : key ∉ Builtin.sweeping)
    (name : String) (h : Machine.Alike m n) :
    Reply.OnBase base (· ++ base) (applyFunction function name stack m)
      (applyFunction function name (stack ++ base) n) := by
  cases function with
  | native operation =>
    obtain ⟨inputs, outputs, heffect, -⟩ := functions_honest _ hentry
    exact applyNative_onBase heffect name h
  | print =>
    cases stack with
    | nil => exact .underflow rfl
    | cons cell rest => exact .ok _ (Machine.Alike.simulation.print h _)
  | random => exact absurd (random_sweeping _ hentry rfl) hlocal

theorem applyCommand_onBase {key : String} {command : Command}
    (hentry : (key, command) ∈ Builtin.commands) (hlocal : key ∉ Builtin.sweeping)
    (config : Config) (name : String) (h : Machine.Alike m n) :
    Reply.OnBase base (· ++ base) (applyCommand config command name stack m)
      (applyCommand config command name (stack ++ base) n) := by
  obtain ⟨slot, rfl⟩ | ⟨slot, rfl⟩ | ⟨factor, rfl⟩ := commands_local _ hentry hlocal
  · cases stack with
    | nil => exact .underflow rfl
    | cons cell rest =>
      simp only [applyCommand, require, List.cons_append, List.length_cons,
        Nat.not_lt_of_le (Nat.le_add_left 1 _), if_false, h.memory]
      exact .ok _ (Machine.Alike.simulation.store h _)
  · simp only [applyCommand, h.memory]
    exact .ok _ h
  · cases stack with
    | nil => exact .underflow rfl
    | cons cell rest =>
      cases cell with
      | number x => exact .ok _ h
      | text s => exact .error _ h

/-! ## Steps -/

variable {setting : Setting} {nested : Nested} {node : Node}

/-- The branch of a conditional is the same, and the base stays below. -/
theorem selectBranch_onBase (test : Test) (h : Machine.Alike m n) :
    Reply.OnBase base (fun selected => (selected.1, selected.2 ++ base))
      (selectBranch test stack, m) (selectBranch test (stack ++ base), n) := by
  match stack with
  | [] => exact .underflow rfl
  | [cell] => exact .underflow rfl
  | .text s :: lower :: rest => exact .error _ h
  | .number y :: .text s :: rest => exact .error _ h
  | .number y :: .number x :: rest =>
    rw [List.cons_append, List.cons_append, selectBranch_numbers, selectBranch_numbers]
    cases test.holds? x y with
    | none => exact .unnamed rfl h
    | some condition => exact .ok _ h

theorem unresolved_over (name : String) (place : Option Place) (base : Stack) :
    (Error.failure (Library.unresolved name place)).over base
      = .failure (Library.unresolved name place) := by
  rw [Library.unresolved]
  split <;> rfl

theorem executeNode_onBase (hstandard : setting.library.IsStandard) (hlocal : node.IsLocal)
    (hnested : ∀ body, node.Runs setting.library body → RunsOnBase base (nested body))
    (h : Machine.Alike m n) :
    Reply.OnBase base (· ++ base) (executeNode setting nested node stack m)
      (executeNode setting nested node (stack ++ base) n) := by
  cases node with
  | cell c => exact .ok _ h
  | word name place =>
    obtain ⟨function, hentry, hresolve⟩ | ⟨command, hentry, hresolve⟩ |
      ⟨program, -, hresolve⟩ | hresolve := hstandard.resolve_cases name (some place)
    · simp only [executeNode, hresolve, execute]
      exact applyFunction_onBase hentry hlocal name h
    · simp only [executeNode, hresolve, execute]
      exact applyCommand_onBase hentry hlocal setting.config name h
    · simp only [executeNode, hresolve, execute]
      exact hnested _ (.word hresolve) stack m n h
    · simp only [executeNode, hresolve]
      exact .unnamed (unresolved_over name place base) h
  | block body combinator place => exact hlocal.elim
  | branch test consequent alternative place => exact .ok _ h
  | store name place =>
    cases stack with
    | nil => exact .underflow rfl
    | cons cell rest =>
      simp only [executeNode, List.cons_append, h.memory]
      exact .ok _ (Machine.Alike.simulation.store h _)
  | fetch name place =>
    simp only [executeNode, h.memory]
    cases n.memory.value? name with
    | none => exact .unnamed rfl h
    | some cell => exact .ok _ h

/-- What a step leaves and puts in front of the queue is the same, over the base. -/
theorem stepNode_onBase (hstandard : setting.library.IsStandard) (hlocal : node.IsLocal)
    (hnested : ∀ body, node.Runs setting.library body → RunsOnBase base (nested body))
    (h : Machine.Alike m n) :
    Reply.OnBase base (fun left => (left.1 ++ base, left.2)) (stepNode setting nested node stack m)
      (stepNode setting nested node (stack ++ base) n) := by
  obtain ⟨test, consequent, alternative, place, rfl⟩ | hn := node.branch_or_ne
  · rw [stepNode_branch, stepNode_branch]
    obtain ⟨failure, k, hx, hcategory⟩ | ⟨error, k, k', hx, hy, hk⟩ |
      ⟨selected, k, k', hx, hy, hk⟩ := selectBranch_onBase test h
    · rw [(Prod.mk.inj hx).1]
      exact .underflow hcategory
    · rw [(Prod.mk.inj hx).1, (Prod.mk.inj hy).1]
      exact .error _ h
    · rw [(Prod.mk.inj hx).1, (Prod.mk.inj hy).1]
      exact .ok _ h
  · rw [stepNode_of_ne_branch _ _ hn, stepNode_of_ne_branch _ _ hn]
    obtain ⟨failure, k, hx, hcategory⟩ | ⟨error, k, k', hx, hy, hk⟩ |
      ⟨next, k, k', hx, hy, hk⟩ := executeNode_onBase hstandard hlocal hnested h
    · rw [hx]
      exact .underflow hcategory
    · rw [hx, hy]
      exact .error _ hk
    · rw [hx, hy]
      exact .ok _ hk

/-! ## Runs -/

theorem Error.over_blamedOnNode (error : Error) (node : Node) (stack base : Stack) :
    (error.blamedOnNode node stack).over base
      = (error.over base).blamedOnNode node (stack ++ base) := by
  cases error with
  | fault fault => rfl
  | failure failure =>
    obtain ⟨cause, token, place, blamed⟩ := failure
    cases blamed <;> rfl

theorem runFrame_onBase (hstandard : setting.library.IsStandard)
    (hnested : ∀ body, Throughout setting.library Node.IsLocal body →
      RunsOnBase base (nested body))
    {queue : List Node} (hlocal : Throughout setting.library Node.IsLocal queue)
    (stack : Stack) (step : Nat) (h : Machine.Alike m n) :
    Reply.OnBase base (· ++ base) (runFrame setting nested step queue stack m)
      (runFrame setting nested step queue (stack ++ base) n) := by
  induction queue using frameInduction generalizing stack step m n with
  | nil =>
    rw [runFrame_nil, runFrame_nil]
    exact .ok _ h.finished
  | cons node rest ih =>
    rw [runFrame_cons, runFrame_cons]
    obtain ⟨failure, k, hx, hcategory⟩ | ⟨error, k, k', hx, hy, hk⟩ |
      ⟨⟨next, front⟩, k, k', hx, hy, hk⟩ :=
        stepNode_onBase hstandard hlocal.head
          (fun body hruns => hnested body (hlocal.inside hruns)) h.traced
    · rw [hx]
      exact .underflow hcategory
    · -- The step is blamed on the stack before it, which has the base below as well.
      rw [hx, hy]
      dsimp only
      rw [← Error.over_blamedOnNode]
      exact .error _ hk
    · rw [hx, hy]
      exact ih front (stepNode_size hx) (hlocal.behind hx) next (step + 1) hk

theorem run_onBase (hstandard : setting.library.IsStandard) (depth : Nat) {nodes : List Node}
    (hlocal : Throughout setting.library Node.IsLocal nodes) :
    RunsOnBase base (run setting depth nodes) := by
  induction depth generalizing nodes with
  | zero => exact fun _ _ _ h => .unnamed rfl h
  | succ depth ih =>
    exact fun stack _ _ h => runFrame_onBase hstandard (fun _ => ih) hlocal stack 0 h

/-- A run that finishes leaves the same on every base; a run that fails for another reason
    than too few cells fails in the same way on every base, and the stack that it names has
    the base below. -/
theorem run_on_base (setting : Setting) (hstandard : setting.library.IsStandard) (depth : Nat)
    (nodes : List Node) (hlocal : Throughout setting.library Node.IsLocal nodes)
    (stack base : Stack) (m : Machine) :
    match run setting depth nodes stack m with
    | (.ok last, k) =>
      ∃ k', run setting depth nodes (stack ++ base) m = (.ok (last ++ base), k')
        ∧ Machine.Alike k k'
    | (.error (.failure failure), k) =>
      failure.cause.category ≠ .stack →
        ∃ blamed k', failure.stack = some blamed
          ∧ run setting depth nodes (stack ++ base) m
            = (.error (.failure { failure with stack := some (blamed ++ base) }), k')
          ∧ Machine.Alike k k'
    | (.error (.fault fault), k) =>
      ∃ k', run setting depth nodes (stack ++ base) m = (.error (.fault fault), k')
        ∧ Machine.Alike k k' := by
  obtain ⟨failure, k, hx, hcategory⟩ | ⟨error, k, k', hx, hy, hk⟩ | ⟨last, k, k', hx, hy, hk⟩ :=
    run_onBase hstandard depth hlocal stack m m (.refl m)
  · rw [hx]
    exact fun hother => absurd hcategory hother
  · rw [hx]
    cases error with
    | fault fault => exact ⟨k', hy, hk⟩
    | failure failure =>
      intro _
      obtain ⟨token, place, blamed, -, hfull⟩ := run_failure_full hx
      have hblamed : failure.stack = some blamed := by rw [hfull]; rfl
      refine ⟨blamed, k', hblamed, ?_, hk⟩
      rw [hy, Error.over, Failure.over, hblamed]
      rfl
  · rw [hx]
    exact ⟨k', hy, hk⟩

/-- A definition that counts down to zero. -/
def countdown : Program :=
  ⟨[.word "dec" .unknown, .word "dup" .unknown, .cell (.number 0),
    .branch .greater [.word "countdown" .unknown] [] .unknown], .empty none⟩

theorem countdown_local :
    Throughout (Library.fresh.define "countdown" countdown) Node.IsLocal
      [.word "countdown" .unknown] := by
  have hnodes : Throughout (Library.fresh.define "countdown" countdown)
      (· ∈ .word "countdown" .unknown :: countdown.nodes) [.word "countdown" .unknown] := by
    refine .of_closed (by simp) ?_ ?_
    · rintro test consequent alternative place hbranch x hx
      obtain ⟨-, rfl, rfl, -⟩ : test = .greater ∧ consequent = [.word "countdown" .unknown]
          ∧ alternative = [] ∧ place = .unknown := by simpa [countdown] using hbranch
      exact List.mem_append_left _ hx
    · intro outer body houter hruns
      cases hruns with
      | block body combinator place => simp [countdown] at houter
      | word resolved =>
        have hprogram := Library.definition_of_resolve resolved
        rw [Library.define, Table.get?_set] at hprogram
        split at hprogram
        · cases hprogram
          exact fun x hx => List.mem_cons_of_mem _ hx
        · cases hprogram
  have hwords : ∀ name ∈ ["countdown", "dec", "dup"], Builtin.target name ∉ Builtin.sweeping := by
    decide
  refine hnodes.imp ?_
  simpa [countdown, Node.IsLocal] using hwords

/-- A text below does not change how a number is counted down. -/
theorem run_on_base_countdown :
    ((Library.fresh.define "countdown" countdown).IsStandard
      ∧ Throughout (Library.fresh.define "countdown" countdown) Node.IsLocal
          [.word "countdown" .unknown])
      ∧ ∃ k k',
        run ⟨Library.fresh.define "countdown" countdown, .default, 0⟩ 3
            [.word "countdown" .unknown] [.number 2] (.start .fresh 0) = (.ok [.number 0], k)
          ∧ run ⟨Library.fresh.define "countdown" countdown, .default, 0⟩ 3
            [.word "countdown" .unknown] ([.number 2] ++ [.text "a"]) (.start .fresh 0)
            = (.ok ([.number 0] ++ [.text "a"]), k')
          ∧ Machine.Alike k k' := by
  refine ⟨⟨rfl, countdown_local⟩, ?_⟩
  have hbase := run_on_base ⟨Library.fresh.define "countdown" countdown, .default, 0⟩ rfl 3
    [.word "countdown" .unknown] countdown_local [.number 2] [.text "a"] (.start .fresh 0)
  have hresult : (run ⟨Library.fresh.define "countdown" countdown, .default, 0⟩ 3
      [.word "countdown" .unknown] [.number 2] (.start .fresh 0)).1.toOption
        = some [.number 0] := by
    rw [run_result]
    decide +kernel
  split at hbase
  · rename_i last k hrun
    rw [hrun] at hresult
    cases hresult
    obtain ⟨k', hrun', hk⟩ := hbase
    exact ⟨k, k', hrun, hrun', hk⟩
  · rename_i failure k hrun
    rw [hrun] at hresult
    cases hresult
  · rename_i fault k hrun
    rw [hrun] at hresult
    cases hresult

end StackCalc
