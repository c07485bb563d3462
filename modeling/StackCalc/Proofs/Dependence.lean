/-
  StackCalc.Proofs.Dependence

  What a run depends on.  A relation of machines is `Kept` by frames if related machines
  have the same memory, and stay related when both store, print or count the same.  A run
  on related machines has the same result and leaves them related (`run_kept`), unless it
  can get to a node that draws a random number and the machines draw different ones.  Two
  such relations are used: machines with the same memory and random numbers are in the
  same state, and machines can be the same apart from their random numbers.
-/

import StackCalc.Proofs.Reachability
import StackCalc.Proofs.Simulation

namespace StackCalc

/-! ## Relations that are kept -/

/-- A relation of machines that frames keep as long as nothing is drawn. -/
structure Machine.Kept (R : Machine → Machine → Prop) : Prop where
  memory : ∀ {m n}, R m n → m.memory = n.memory
  store : ∀ {m n}, R m n → ∀ memory, R { m with memory := memory } { n with memory := memory }
  note : ∀ {m n}, R m n → ∀ event, R (m.note event) (n.note event)
  finish : ∀ {m n}, R m n → ∀ steps, R (m.finish steps) (n.finish steps)

namespace Machine

variable {R : Machine → Machine → Prop} {m n : Machine}

theorem Kept.quiet (hR : Kept R) : Quiet R :=
  ⟨hR.memory, hR.store, fun h line => hR.note h (.print line)⟩

theorem Kept.traced (hR : Kept R) (h : R m n) (setting : Setting) (step : Nat)
    (nodes : List Node) (stack : Stack) :
    R (traced setting step nodes stack m) (traced setting step nodes stack n) := by
  rw [StackCalc.traced, StackCalc.traced]
  split
  · exact hR.note h _
  · exact h

theorem Kept.finished (hR : Kept R) (h : R m n) (setting : Setting) (step : Nat) (stack : Stack) :
    R (finished setting step stack m) (finished setting step stack n) := by
  rw [StackCalc.finished, StackCalc.finished]
  apply hR.finish
  split
  · exact hR.note h _
  · exact h

/-- The second machine has the memory and the random numbers of the first, whatever they
    printed and counted. -/
structure SameState (m n : Machine) : Prop where
  memory : m.memory = n.memory
  seed : m.seed = n.seed

theorem SameState.kept : Kept SameState where
  memory h := h.memory
  store h _ := ⟨rfl, h.seed⟩
  note h _ := ⟨h.memory, h.seed⟩
  finish h _ := ⟨h.memory, h.seed⟩

theorem SameState.drawsAlike : DrawsAlike SameState := by
  intro m n h
  obtain ⟨fraction, seed, hdraw⟩ := draw_of_seed m.seed
  rw [hdraw m rfl, hdraw n h.seed.symm]
  exact ⟨rfl, h.memory, rfl⟩

/-- The second machine is the first, but may draw other random numbers. -/
structure SameButSeed (m n : Machine) : Prop where
  memory : m.memory = n.memory
  events : m.events = n.events
  steps : m.steps = n.steps
  frames : m.frames = n.frames

theorem SameButSeed.kept : Kept SameButSeed where
  memory h := h.memory
  store h _ := ⟨rfl, h.events, h.steps, h.frames⟩
  note h event := ⟨h.memory, congrArg (event :: ·) h.events, h.steps, h.frames⟩
  finish h steps :=
    ⟨h.memory, h.events, congrArg (· + steps) h.steps, congrArg (· + 1) h.frames⟩

end Machine

/-! ## Frames and runs -/

variable {R : Machine → Machine → Prop} {m n : Machine} {setting : Setting}

/-- Everywhere in a program related machines draw the same random numbers, or none. -/
def DrawsWithin (R : Machine → Machine → Prop) (library : Library) (nodes : List Node) : Prop :=
  Throughout library (fun node => node.Draws library → Machine.DrawsAlike R) nodes

theorem runFrame_kept {nested nested' : Nested} (hR : Machine.Kept R)
    (hnested : ∀ body, DrawsWithin R setting.library body →
      RunsAlike R (nested body) (nested' body))
    {queue : List Node} (hqueue : DrawsWithin R setting.library queue) (step : Nat)
    (stack : Stack) (h : R m n) :
    Reply.Related R (runFrame setting nested step queue stack m)
      (runFrame setting nested' step queue stack n) := by
  -- On the work that is left in the queue; that the machines are related is the invariant.
  induction queue using frameInduction generalizing step stack m n with
  | nil =>
    rw [runFrame_nil, runFrame_nil]
    exact .of_machines _ (hR.finished h setting step stack)
  | cons node rest ih =>
    have htraced := hR.traced h setting step (node :: rest) stack
    have hstep := (stepNode_agree_of_draws hR.quiet hqueue.head (Eq.refl setting.config)
      (fun _ _ _ => rfl) (fun body hruns => (hnested body (hqueue.inside hruns)).agree)
      stack htraced).related
    obtain ⟨result, m', n', hfirst, hsecond, h'⟩ := hstep.exists
    rw [runFrame_cons, runFrame_cons, hfirst, hsecond]
    match result with
    | .error error => exact .of_machines _ h'
    | .ok (next, front) =>
      exact ih front (stepNode_size hfirst) (hqueue.behind hfirst) (step + 1) next h'

/-- A run has the same result on related machines and leaves them related. -/
theorem run_kept (hR : Machine.Kept R) (depth : Nat) {nodes : List Node}
    (hnodes : DrawsWithin R setting.library nodes) :
    RunsAlike R (run setting depth nodes) (run setting depth nodes) := by
  induction depth generalizing nodes with
  | zero => exact fun _ _ _ h => .of_machines _ h
  | succ depth ih => exact fun stack m n h => runFrame_kept hR (fun _ => ih) hnodes 0 stack h

/-- A run depends on the memory and the random numbers, and on nothing else of the
    machine. -/
theorem run_sameState (setting : Setting) (depth : Nat) (nodes : List Node) :
    RunsAlike Machine.SameState (run setting depth nodes) (run setting depth nodes) :=
  run_kept Machine.SameState.kept depth fun _ _ _ => Machine.SameState.drawsAlike

/-! ## Programs that draw nothing -/

/-- No node that a program can get to draws a random number. -/
def DrawsNothing (library : Library) (nodes : List Node) : Prop :=
  Throughout library (fun node => ¬node.Draws library) nodes

/-- An operation that draws no random number. -/
def Operation.DrawsNothing (operation : Operation) (library : Library) : Prop :=
  match operation.target with
  | .function _ function => function ≠ .random
  | .command .. => True
  | .definition program => StackCalc.DrawsNothing library program.nodes

/-- A word for a function that draws nothing, or for a command, or for nothing at all. -/
def Node.IsPlainWord (library : Library) (node : Node) : Prop :=
  ∃ name place, node = .word name place
    ∧ ∀ operation, library.resolve name (some place) = .ok operation →
      (∀ key, operation.target ≠ .function key .random)
        ∧ ∀ program, operation.target ≠ .definition program

theorem Node.isPlainWord_of_resolve {library : Library} {name : String} {place : Place}
    {operation : Operation} (h : library.resolve name (some place) = .ok operation)
    (hrandom : ∀ key, operation.target ≠ .function key .random)
    (hdefinition : ∀ program, operation.target ≠ .definition program) :
    (Node.word name place).IsPlainWord library := by
  refine ⟨name, place, rfl, fun other hother => ?_⟩
  cases h.symm.trans hother
  exact ⟨hrandom, hdefinition⟩

/-- A program of plain words draws nothing. -/
theorem drawsNothing_of_plainWords {library : Library} {nodes : List Node}
    (h : ∀ node ∈ nodes, node.IsPlainWord library) : DrawsNothing library nodes := by
  have hplain : Throughout library (Node.IsPlainWord library) nodes := by
    refine .of_closed h ?_ ?_
    · rintro test consequent alternative place ⟨name, wordPlace, hword, -⟩
      cases hword
    -- No body is run from a plain word: it would be one of a definition.
    · rintro outer body ⟨name, place, rfl, hplain⟩ hruns
      cases hruns with
      | word resolved => exact absurd rfl ((hplain _ resolved).2 _)
  refine hplain.imp ?_
  rintro node ⟨name, place, rfl, hplain⟩ ⟨name', place', called, key, hword, hresolve⟩
  cases hword
  exact (hplain _ hresolve).1 key rfl

/-- A run that draws nothing does not depend on the random numbers. -/
theorem run_sameButSeed (depth : Nat) {nodes : List Node}
    (hnodes : DrawsNothing setting.library nodes) :
    RunsAlike Machine.SameButSeed (run setting depth nodes) (run setting depth nodes) :=
  run_kept Machine.SameButSeed.kept depth fun node hnode hdraws => absurd hdraws (hnodes node hnode)

theorem execute_sameButSeed (depth : Nat) {operation : Operation}
    (hoperation : operation.DrawsNothing setting.library) (stack : Stack)
    (h : Machine.SameButSeed m n) :
    Reply.Related Machine.SameButSeed (execute setting (run setting depth) operation stack m)
      (execute setting (run setting depth) operation stack n) := by
  have hquiet := Machine.SameButSeed.kept.quiet
  obtain ⟨name, target⟩ := operation
  cases target with
  | function key function =>
    exact applyFunction_related hquiet (fun hrandom => absurd hrandom hoperation) name stack h
  | command key command => exact applyCommand_related hquiet setting.config command name stack h
  | definition program => exact run_sameButSeed depth hoperation stack m n h

end StackCalc
