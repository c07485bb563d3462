/-
  StackCalc.Proofs.Resumption

  Runs that go on where others have ended.  A run looks neither at the places in its program
  nor at how much is traced, and it only adds to what was printed and counted before.  So
  two runs of the same words that start with the same memory come to the same result, apart
  from places, and the second stays ahead of the first by what it was ahead at the start
  (`run_like`).  Every other relation of machines that the steps and the traces of like nodes
  keep is kept by such runs as well (`run_follows`).
-/

import StackCalc.Proofs.Places
import StackCalc.Proofs.Simulation

namespace StackCalc

/-! ## Machines that have printed and counted before -/

/-- The second machine is like the first, but some lines, steps and finished frames come
    before those of the first; the lines of traces may differ. -/
structure Machine.Resumes (lines : List String) (steps frames : Nat) (m n : Machine) : Prop where
  memory : n.memory = m.memory
  printed : n.printed = m.printed ++ lines
  seed : n.seed = m.seed
  steps : n.steps = m.steps + steps
  frames : n.frames = m.frames + frames

namespace Machine

variable {lines : List String} {steps frames : Nat} {m n : Machine}

theorem Resumes.refl (m : Machine) : Resumes [] 0 0 m m :=
  ⟨rfl, (List.append_nil _).symm, rfl, rfl, rfl⟩

/-- Every machine resumes a machine that is about to start with its memory. -/
theorem resumes_start (m : Machine) :
    Resumes m.printed m.steps m.frames (start m.memory m.seed) m :=
  ⟨rfl, rfl, rfl, (Nat.zero_add _).symm, (Nat.zero_add _).symm⟩

/-- No step looks at what was printed and counted before. -/
theorem Resumes.simulation : Simulation (Resumes lines steps frames) where
  memory h := h.memory.symm
  store h _ := ⟨rfl, h.printed, h.seed, h.steps, h.frames⟩
  print h line := ⟨h.memory, congrArg (line :: ·) h.printed, h.seed, h.steps, h.frames⟩
  draw {m n} h := by
    obtain ⟨fraction, seed, hdraw⟩ := draw_of_seed m.seed
    rw [hdraw m rfl, hdraw n h.seed]
    exact ⟨rfl, h.memory, h.printed, rfl, h.steps, h.frames⟩

/-- The line of a trace is no line of the program. -/
theorem Resumes.traced (h : Resumes lines steps frames m n) (setting setting' : Setting)
    (step : Nat) (nodes nodes' : List Node) (stack : Stack) :
    Resumes lines steps frames (traced setting step nodes stack m)
      (traced setting' step nodes' stack n) := by
  simp only [StackCalc.traced]
  split <;> split <;> exact ⟨h.memory, h.printed, h.seed, h.steps, h.frames⟩

theorem Resumes.finish (h : Resumes lines steps frames m n) (done : Nat) :
    Resumes lines steps frames (m.finish done) (n.finish done) where
  memory := h.memory
  printed := h.printed
  seed := h.seed
  steps := by simp only [Machine.finish, h.steps]; omega
  frames := by simp only [Machine.finish, h.frames]; omega

theorem Resumes.finished (h : Resumes lines steps frames m n) (setting setting' : Setting)
    (step : Nat) (stack : Stack) :
    Resumes lines steps frames (finished setting step stack m)
      (finished setting' step stack n) := by
  simp only [StackCalc.finished]
  refine Resumes.finish ?_ step
  split <;> split <;> exact ⟨h.memory, h.printed, h.seed, h.steps, h.frames⟩

end Machine

/-! ## Replies apart from places -/

/-- Two replies have the same result, apart from the places in an error, of machines in a
    relation. -/
def Reply.Like {α : Type} (R : Machine → Machine → Prop) (x y : Reply α) : Prop :=
  (∃ result m n, x = (.ok result, m) ∧ y = (.ok result, n) ∧ R m n)
    ∨ ∃ error error' m n, x = (.error error, m) ∧ y = (.error error', n)
        ∧ error.unplaced = error'.unplaced ∧ R m n

/-- Two ways to run a block or body that have like results on every stack. -/
def RunsLike (R : Machine → Machine → Prop) (first second : Stack → Machine → Reply Stack) :
    Prop :=
  ∀ stack m n, R m n → Reply.Like R (first stack m) (second stack n)

variable {R : Machine → Machine → Prop} {m n : Machine}

theorem Reply.Like.ok {α : Type} (result : α) (h : R m n) :
    Reply.Like R (.ok result, m) (.ok result, n) :=
  Or.inl ⟨result, m, n, rfl, rfl, h⟩

theorem Reply.Like.error {α : Type} {error error' : Error}
    (herror : error.unplaced = error'.unplaced) (h : R m n) :
    Reply.Like (α := α) R (.error error, m) (.error error', n) :=
  Or.inr ⟨error, error', m, n, rfl, rfl, herror, h⟩

/-- The machines of like replies are in the relation. -/
theorem Reply.Like.machines {α : Type} {x y : Reply α} (h : Reply.Like R x y) : R x.2 y.2 := by
  obtain ⟨result, m, n, rfl, rfl, hR⟩ | ⟨error, error', m, n, rfl, rfl, -, hR⟩ := h
  · exact hR
  · exact hR

theorem Reply.Related.like {α : Type} {x y : Reply α} (h : Reply.Related R x y) :
    Reply.Like R x y := by
  obtain ⟨result, m, n, rfl, rfl, hR⟩ := h.exists
  cases result with
  | ok result => exact .ok result hR
  | error error => exact .error rfl hR

/-! ## Blocks -/

variable {first second : Stack → Machine → Reply Stack}

theorem mapItems_like (hlike : RunsLike R first second) {blame blame' : Cause → Error}
    (hblame : ∀ cause, (blame cause).unplaced = (blame' cause).unplaced)
    (items done : List Cell) (h : R m n) :
    Reply.Like R (mapItems first blame done items m) (mapItems second blame' done items n) := by
  induction items generalizing done m n with
  | nil => exact .ok _ h
  | cons item rest ih =>
    rw [mapItems, mapItems]
    obtain ⟨left, m', n', hfirst, hsecond, h'⟩ | ⟨error, error', m', n', hfirst, hsecond, he, h'⟩ :=
      hlike [item] m n h
    · rw [hfirst, hsecond]
      obtain _ | ⟨result, _ | ⟨second, more⟩⟩ := left
      · exact .error (hblame _) h'
      · exact ih (result :: done) h'
      · exact .error (hblame _) h'
    · rw [hfirst, hsecond]
      exact .error he h'

theorem accumulate_like (hlike : RunsLike R first second) {emptied emptied' : Error}
    (hemptied : emptied.unplaced = emptied'.unplaced)
    (items done : List Cell) (accumulator : Cell) (h : R m n) :
    Reply.Like R (accumulate first emptied done accumulator items m)
      (accumulate second emptied' done accumulator items n) := by
  induction items generalizing done accumulator m n with
  | nil => exact .ok _ h
  | cons item rest ih =>
    rw [accumulate, accumulate]
    obtain ⟨left, m', n', hfirst, hsecond, h'⟩ | ⟨error, error', m', n', hfirst, hsecond, he, h'⟩ :=
      hlike [item, accumulator] m n h
    · rw [hfirst, hsecond]
      cases left with
      | nil => exact .error hemptied h'
      | cons next _ => exact ih (next :: done) next h'
    · rw [hfirst, hsecond]
      exact .error he h'

variable {nested nested' : Nested} {body body' : List Node}

/-- The place of a block only shows in the place of its error. -/
theorem combinatorError_unplaced (combinator : Combinator) (place place' : Place) (stack : Stack)
    (cause : Cause) :
    (combinatorError combinator place stack cause).unplaced
      = (combinatorError combinator place' stack cause).unplaced := rfl

theorem accumulateStack_like (hlike : RunsLike R (nested body) (nested' body'))
    (combinator : Combinator) (place place' : Place) (stack : Stack) (h : R m n) :
    Reply.Like R (accumulateStack nested body combinator place stack m)
      (accumulateStack nested' body' combinator place' stack n) := by
  cases stack with
  | nil => exact .error (combinatorError_unplaced ..) h
  | cons seed items =>
    exact accumulate_like hlike (combinatorError_unplaced combinator place place' ..) _ _ _ h

/-- Two blocks with like bodies are like each other under every combinator. -/
theorem applyBlock_like (hlike : RunsLike R (nested body) (nested' body'))
    (combinator : Combinator) (place place' : Place) (stack : Stack) (h : R m n) :
    Reply.Like R (applyBlock nested body combinator place stack m)
      (applyBlock nested' body' combinator place' stack n) := by
  have hall := accumulateStack_like hlike combinator place place' stack h
  cases combinator with
  | map => exact mapItems_like hlike (combinatorError_unplaced .map place place' stack) _ _ h
  | fold =>
    rw [applyBlock, applyBlock]
    obtain ⟨results, m', n', hfirst, hsecond, h'⟩ |
      ⟨error, error', m', n', hfirst, hsecond, he, h'⟩ := hall
    · rw [hfirst, hsecond]
      exact .ok _ h'
    · rw [hfirst, hsecond]
      exact .error he h'
  | scan =>
    simp only [applyBlock]
    split
    · exact .ok _ h
    · exact hall
  | unknown keyword => exact .error rfl h

/-! ## Words -/

/-- Two libraries in which every name stands for the same, apart from places, whatever the order
    of their definitions. -/
structure Library.Agrees (library library' : Library) : Prop where
  functions : library.functions = library'.functions
  definitions : ∀ name, (library.definitions.get? name).map Program.unplaced
    = (library'.definitions.get? name).map Program.unplaced

theorem Library.Agrees.of_unplaced {library library' : Library}
    (h : library.unplaced = library'.unplaced) : library.Agrees library' where
  functions := congrArg (·.functions) h
  definitions name := by
    rw [← Table.get?_map, ← Table.get?_map]
    exact congrArg (·.definitions.get? name) h

/-- Two settings with the same configuration in which every name stands for the same, apart from
    places. -/
structure Setting.Like (setting setting' : Setting) : Prop where
  config : setting.config = setting'.config
  library : setting.library.Agrees setting'.library

theorem unresolved_unplaced (name : String) (place place' : Option Place) :
    (Library.unresolved name place).unplaced = (Library.unresolved name place').unplaced := by
  simp only [Library.unresolved]
  split <;> rfl

/-- What a word stands for in two libraries that agree: for a function or command, for two like
    definitions, or for nothing. -/
theorem resolve_like {library library' : Library} (h : library.Agrees library')
    (name : String) (place place' : Option Place) :
    (∃ operation, library.resolve name place = .ok operation
        ∧ library'.resolve name place' = .ok operation
        ∧ ∀ program, operation.target ≠ .definition program)
      ∨ (∃ program program', library.resolve name place = .ok ⟨name, .definition program⟩
        ∧ library'.resolve name place' = .ok ⟨name, .definition program'⟩
        ∧ program.unplaced = program'.unplaced)
      ∨ library.resolve name place = .error (Library.unresolved name place)
        ∧ library'.resolve name place' = .error (Library.unresolved name place') := by
  -- Functions and commands come first, and both libraries have the same.
  have hdefinitions := h.definitions name
  simp only [Library.resolve, ← h.functions]
  cases library.functions.get? (Builtin.target name) with
  | some function => exact Or.inl ⟨_, rfl, rfl, nofun⟩
  | none =>
    cases Library.command? (Builtin.target name) with
    | some command => exact Or.inl ⟨_, rfl, rfl, nofun⟩
    | none =>
      revert hdefinitions
      cases library.definitions.get? name with
      | some program =>
        cases library'.definitions.get? name with
        | some program' =>
          intro hprogram
          exact Or.inr (Or.inl ⟨program, program', rfl, rfl, Option.some.inj hprogram⟩)
        | none => exact nofun
      | none =>
        cases library'.definitions.get? name with
        | some program' => exact nofun
        | none => exact fun _ => Or.inr (Or.inr ⟨rfl, rfl⟩)

/-! ## Nodes -/

variable {setting setting' : Setting} {node node' : Node}

/-- A node has like results in two like settings, apart from its place, if the programs that it
    runs have. -/
theorem executeNode_like (hR : Machine.Simulation R) (hsetting : setting.Like setting')
    (hnode : node.relocate (fun _ => .unknown) = node'.relocate fun _ => .unknown)
    (hlike : ∀ body body', Node.unplacedAll body = Node.unplacedAll body' →
      RunsLike R (nested body) (nested' body'))
    (stack : Stack) (h : R m n) :
    Reply.Like R (executeNode setting nested node stack m)
      (executeNode setting' nested' node' stack n) := by
  have hm := hR.memory h
  cases node <;> cases node' <;> simp only [Node.relocate, reduceCtorEq] at hnode
  case cell.cell c c' =>
    cases hnode
    exact .ok _ h
  case word.word name place name' place' =>
    obtain ⟨rfl, -⟩ := Node.word.inj hnode
    rw [executeNode, executeNode]
    obtain ⟨operation, hfirst, hsecond, hnative⟩ | ⟨program, program', hfirst, hsecond, hprogram⟩ |
      ⟨hfirst, hsecond⟩ := resolve_like hsetting.library name (some place) (some place')
    · obtain ⟨called, target⟩ := operation
      rw [hfirst, hsecond]
      cases target with
      | function key function =>
        exact (applyFunction_related hR.toQuiet (fun _ => hR.drawsAlike) called stack h).like
      | command key command =>
        simp only [execute, ← hsetting.config]
        exact (applyCommand_related hR.toQuiet setting.config command called stack h).like
      | definition program => exact absurd rfl (hnative program)
    · rw [hfirst, hsecond]
      exact hlike _ _ (congrArg Program.nodes hprogram) stack m n h
    · rw [hfirst, hsecond]
      exact .error (congrArg Error.failure (unresolved_unplaced name ..)) h
  case block.block body combinator place body' combinator' place' =>
    obtain ⟨hbody, rfl, -⟩ := Node.block.inj hnode
    exact applyBlock_like (hlike _ _ hbody) combinator place place' stack h
  case branch.branch => exact .ok _ h
  case store.store name place name' place' =>
    obtain ⟨rfl, -⟩ := Node.store.inj hnode
    cases stack with
    | nil => exact .error rfl h
    | cons cell rest =>
      simp only [executeNode, hm]
      exact .ok _ (hR.store h _)
  case fetch.fetch name place name' place' =>
    obtain ⟨rfl, -⟩ := Node.fetch.inj hnode
    rw [executeNode, executeNode, hm]
    split
    · exact .error rfl h
    · exact .ok _ h

/-- One step of like nodes leaves the same stack and like nodes in front of the queue. -/
theorem stepNode_like (hR : Machine.Simulation R) (hsetting : setting.Like setting')
    (hnode : node.relocate (fun _ => .unknown) = node'.relocate fun _ => .unknown)
    (hlike : ∀ body body', Node.unplacedAll body = Node.unplacedAll body' →
      RunsLike R (nested body) (nested' body'))
    (stack : Stack) (h : R m n) :
    (∃ next front front' m' n', stepNode setting nested node stack m = (.ok (next, front), m')
        ∧ stepNode setting' nested' node' stack n = (.ok (next, front'), n')
        ∧ Node.unplacedAll front = Node.unplacedAll front' ∧ R m' n')
      ∨ ∃ error error' m' n', stepNode setting nested node stack m = (.error error, m')
        ∧ stepNode setting' nested' node' stack n = (.error error', n')
        ∧ error.unplaced = error'.unplaced ∧ R m' n' := by
  obtain ⟨test, consequent, alternative, place, rfl⟩ | hn := node.branch_or_ne
  · -- Both are the same conditional, which selects the same branch without running anything.
    cases node' <;> simp only [Node.relocate, reduceCtorEq] at hnode
    case branch test' consequent' alternative' place' =>
    obtain ⟨rfl, hconsequent, halternative, -⟩ := Node.branch.inj hnode
    rw [stepNode_branch, stepNode_branch]
    cases selectBranch test stack with
    | error error => exact Or.inr ⟨error, error, m, n, rfl, rfl, rfl, h⟩
    | ok selected =>
      obtain ⟨condition, below⟩ := selected
      refine Or.inl ⟨below, _, _, m, n, rfl, rfl, ?_, h⟩
      cases condition
      · exact halternative
      · exact hconsequent
  · have hn' : ∀ test consequent alternative place,
        node' ≠ .branch test consequent alternative place := by
      rintro test consequent alternative place rfl
      cases node <;> simp only [Node.relocate, reduceCtorEq] at hnode
      exact hn _ _ _ _ rfl
    rw [stepNode_of_ne_branch _ _ hn, stepNode_of_ne_branch _ _ hn']
    obtain ⟨next, m', n', hfirst, hsecond, h'⟩ |
      ⟨error, error', m', n', hfirst, hsecond, he, h'⟩ :=
      executeNode_like hR hsetting hnode hlike stack h
    · rw [hfirst, hsecond]
      exact Or.inl ⟨next, [], [], m', n', rfl, rfl, rfl, h'⟩
    · rw [hfirst, hsecond]
      exact Or.inr ⟨error, error', m', n', rfl, rfl, he, h'⟩

/-! ## Frames and runs -/

/-- A relation of machines that is kept in two settings by the steps of like nodes, and by the
    lines of their traces. -/
structure Machine.Follows (R : Machine → Machine → Prop) (setting setting' : Setting) : Prop
    extends Machine.Simulation R where
  traced : ∀ {m n}, R m n → ∀ step nodes nodes' stack,
    Node.unplacedAll nodes = Node.unplacedAll nodes' →
      R (traced setting step nodes stack m) (traced setting' step nodes' stack n)
  finished : ∀ {m n}, R m n → ∀ step stack,
    R (finished setting step stack m) (finished setting' step stack n)

theorem Machine.Resumes.follows {lines : List String} {steps frames : Nat}
    (setting setting' : Setting) : Follows (Resumes lines steps frames) setting setting' where
  toSimulation := Resumes.simulation
  traced h step nodes nodes' stack _ := h.traced setting setting' step nodes nodes' stack
  finished h step stack := h.finished setting setting' step stack

theorem Node.token_relocate {f : Place → Place} (node : Node) :
    (node.relocate f).token = node.token := by
  cases node <;> simp only [relocate, token]

/-- Frames with like nodes in their queues have like results. -/
theorem runFrame_follows (hR : Machine.Follows R setting setting') (hsetting : setting.Like setting')
    (hlike : ∀ body body', Node.unplacedAll body = Node.unplacedAll body' →
      RunsLike R (nested body) (nested' body'))
    (queue queue' : List Node) (hqueue : Node.unplacedAll queue = Node.unplacedAll queue')
    (step : Nat) (stack : Stack) (h : R m n) :
    Reply.Like R (runFrame setting nested step queue stack m)
      (runFrame setting' nested' step queue' stack n) := by
  induction queue using frameInduction generalizing queue' step stack m n with
  | nil =>
    cases queue' with
    | nil =>
      rw [runFrame_nil, runFrame_nil]
      exact .ok _ (hR.finished h step stack)
    | cons node' rest' => cases hqueue
  | cons node rest ih =>
    cases queue' with
    | nil => cases hqueue
    | cons node' rest' =>
      obtain ⟨hnode, hrest⟩ := List.cons.inj hqueue
      rw [runFrame_cons, runFrame_cons]
      obtain ⟨next, front, front', m', n', hfirst, hsecond, hfront, h'⟩ |
        ⟨error, error', m', n', hfirst, hsecond, he, h'⟩ :=
        stepNode_like hR.toSimulation hsetting hnode hlike stack
          (hR.traced h step (node :: rest) (node' :: rest') stack hqueue)
      · rw [hfirst, hsecond]
        have hqueue' : Node.unplacedAll (front ++ rest) = Node.unplacedAll (front' ++ rest') := by
          rw [Node.unplacedAll_append, Node.unplacedAll_append, hfront]
          exact congrArg (Node.unplacedAll front' ++ ·) hrest
        exact ih front (stepNode_size hfirst) (front' ++ rest') hqueue' (step + 1) next h'
      · rw [hfirst, hsecond]
        -- An error is blamed on the token of the node, which is no matter of its place.
        have htoken : node.token = node'.token := by
          rw [← node.token_relocate, hnode, node'.token_relocate]
        simp only [Error.blamedOnNode, htoken]
        exact .error (Error.unplaced_blamedOn he ..) h'

/-- Runs of like programs have like results. -/
theorem run_follows (hR : Machine.Follows R setting setting') (hsetting : setting.Like setting')
    (depth : Nat) (nodes nodes' : List Node)
    (hnodes : Node.unplacedAll nodes = Node.unplacedAll nodes') :
    RunsLike R (run setting depth nodes) (run setting' depth nodes') := by
  induction depth generalizing nodes nodes' with
  | zero => exact fun _ _ _ h => .error rfl h
  | succ depth ih =>
    exact fun stack _ _ h => runFrame_follows hR hsetting ih nodes nodes' hnodes 0 stack h

/-- A run that resumes another one of a like program has a like result, and is still ahead by
    what it was ahead at the start. -/
theorem run_like {lines : List String} {steps frames : Nat} (hsetting : setting.Like setting')
    (depth : Nat) (nodes nodes' : List Node)
    (hnodes : Node.unplacedAll nodes = Node.unplacedAll nodes') :
    RunsLike (Machine.Resumes lines steps frames) (run setting depth nodes)
      (run setting' depth nodes') :=
  run_follows (Machine.Resumes.follows setting setting') hsetting depth nodes nodes' hnodes

end StackCalc
