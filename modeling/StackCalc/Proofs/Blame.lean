/-
  StackCalc.Proofs.Blame

  Which step a failure is blamed on.  The failure of a run names a word, a place and a
  stack: they are those of the one step that failed by itself, in the innermost of the
  frames that are at work when it fails (`run_failure_iff`).  The frames around it
  leave all three as they are.
-/

import StackCalc.Proofs.NestedRuns

namespace StackCalc

/-! ## What a failure names -/

/-- The word that a node is blamed by: a variable that cannot be fetched by its name, all
    other nodes by the word that stands for them. -/
def Node.culprit : Node → String
  | .fetch name _ => name
  | node => node.token

/-- A failure names no other word, place or stack than the given ones. -/
structure Failure.Names (failure : Failure) (token : String) (place : Option Place)
    (stack : Stack) : Prop where
  token : ∀ t ∈ failure.token, t = token
  place : ∀ p ∈ failure.place, place = some p
  stack : ∀ s ∈ failure.stack, s = stack

/-- A failure that names nothing else, and that is no fault of another text than the one that
    the place is in. -/
structure Failure.Belongs (failure : Failure) (word : String) (spot : Option Place)
    (before : Stack) : Prop extends failure.Names word spot before where
  origin : ∀ fault, failure.cause = .source fault → fault.name = spot.bind (·.origin.name?)

/-- The failure of a cause, with all that it can name. -/
def Failure.ofStep (cause : Cause) (token : String) (place : Option Place) (stack : Stack) :
    Failure :=
  ⟨cause, some token, place, some stack⟩

variable {failure : Failure} {name token : String} {place : Option Place} {stack : Stack}

theorem Failure.belongs_onStack {cause : Cause} (hcause : ∀ fault, cause ≠ .source fault) :
    (onStack token stack cause).Belongs token place stack where
  token _ h := (Option.some.inj h).symm
  place := nofun
  stack _ h := (Option.some.inj h).symm
  origin fault h := absurd h (hcause fault)

/-- A failure that names nothing else is filled up with the word, place and stack. -/
theorem Failure.Names.blamedOn (h : failure.Names token place stack) :
    failure.blamedOn token place stack = ofStep failure.cause token place stack := by
  obtain ⟨cause, t, p, s⟩ := failure
  have htoken : t.or (some token) = some token := by
    cases t with
    | none => rfl
    | some t => exact congrArg some (h.token t rfl)
  have hplace : p.or place = place := by
    cases p with
    | none => rfl
    | some p => exact (h.place p rfl).symm
  have hstack : s.or (some stack) = some stack := by
    cases s with
    | none => rfl
    | some s => exact congrArg some (h.stack s rfl)
  simp only [Failure.blamedOn, ofStep, htoken, hplace, hstack]

/-- A failure that names all three is not changed by another step. -/
theorem Failure.blamedOn_ofStep (cause : Cause) {inner : Option Place} (hinner : inner.isSome)
    (outerToken : String) (outerPlace : Option Place) (outerStack : Stack) :
    (ofStep cause token inner stack).blamedOn outerToken outerPlace outerStack
      = ofStep cause token inner stack := by
  obtain ⟨p, rfl⟩ := Option.isSome_iff_exists.mp hinner
  rfl

/-! ## Functions and commands -/

theorem checkInputs_error {types : List CellType}
    (h : checkInputs name types stack = .error failure) : failure.Belongs name place stack := by
  rw [checkInputs] at h
  split at h
  · cases h
    exact Failure.belongs_onStack nofun
  · split at h
    · cases h
      exact Failure.belongs_onStack nofun
    · cases h

theorem require_error {count : Nat} (h : require name count stack = .error failure) :
    failure.Belongs name place stack := by
  rw [require] at h
  split at h
  · cases h
    exact Failure.belongs_onStack nofun
  · cases h

theorem Trouble.error_belongs {trouble : Trouble} (h : trouble.error name = .failure failure) :
    failure.Belongs name place stack := by
  cases trouble with
  | refused refusal =>
    cases h
    exact ⟨⟨fun _ h => (Option.some.inj h).symm, nofun, nofun⟩, nofun⟩
  | problem problem =>
    cases h
    exact ⟨⟨nofun, nofun, nofun⟩, nofun⟩
  | fault fault => cases h

theorem applyNative_error {operation : Native}
    (h : applyNative operation name stack = .error (.failure failure)) :
    failure.Belongs name place stack := by
  rw [applyNative] at h
  split at h
  · split at h
    · cases h
    · exact Trouble.error_belongs (Except.error.inj h)
  · split at h
    · cases h
      exact checkInputs_error ‹_›
    · split at h
      · cases h
      · exact Trouble.error_belongs (Except.error.inj h)

variable {m m' : Machine}

theorem applyFunction_error {function : Function}
    (h : applyFunction function name stack m = (.error (.failure failure), m')) :
    failure.Belongs name place stack := by
  cases function with
  | native operation => exact applyNative_error (Prod.mk.inj h).1
  | print =>
    simp only [applyFunction] at h
    split at h
    · cases h
      exact checkInputs_error ‹_›
    · cases h
    · cases h
  | random =>
    simp only [applyFunction] at h
    split at h
    · cases h
      exact checkInputs_error ‹_›
    · split at h
      · exact Trouble.error_belongs (Except.error.inj (Prod.mk.inj h).1)
      · cases h
    · cases h

theorem applyCommand_error {config : Config} {command : Command}
    (h : applyCommand config command name stack m = (.error (.failure failure), m')) :
    failure.Belongs name place stack := by
  cases command with
  | clear | recallSlot slot => cases h
  | roll | rotate =>
    simp only [applyCommand] at h
    split at h
    · cases h
      exact require_error ‹_›
    · cases h
  | reduce reduction =>
    simp only [applyCommand] at h
    split at h
    · cases h
      exact require_error ‹_›
    · split at h
      · cases h
        exact checkInputs_error ‹_›
      · split at h
        · split at h <;> cases h
        · cases h
  | storeSlot slot =>
    simp only [applyCommand] at h
    split at h
    · cases h
      exact require_error ‹_›
    · cases h
    · cases h
  | scale factor =>
    simp only [applyCommand] at h
    split at h
    · cases h
      exact checkInputs_error ‹_›
    · cases h
    · cases h

theorem selectBranch_error {test : Test}
    (h : selectBranch test stack = .error (.failure failure)) :
    failure.Belongs test.keyword place stack := by
  simp only [selectBranch] at h
  split at h
  · cases h
    exact checkInputs_error ‹_›
  · split at h <;> cases h
  · cases h

/-! ## Words -/

/-- A word that is no number stands in the text that it is a fault of. -/
theorem unresolved_belongs (name : String) (place : Place) (stack : Stack) :
    (Library.unresolved name (some place)).Belongs name (some place) stack := by
  rw [Library.unresolved]
  split
  · refine ⟨⟨fun _ h => (Option.some.inj h).symm, nofun, nofun⟩, fun fault hfault => ?_⟩
    cases hfault
    rfl
  · exact ⟨⟨fun _ h => (Option.some.inj h).symm, fun _ h => h, nofun⟩, nofun⟩

/-- A word stands for something under its own name, or for nothing. -/
theorem Library.resolve_cases (library : Library) (name : String) (place : Option Place) :
    (∃ target, library.resolve name place = .ok ⟨name, target⟩)
      ∨ library.resolve name place = .error (unresolved name place) := by
  rw [resolve]
  split
  · exact Or.inl ⟨_, rfl⟩
  · split
    · exact Or.inl ⟨_, rfl⟩
    · split
      · exact Or.inl ⟨_, rfl⟩
      · exact Or.inr rfl

/-! ## Steps -/

variable {setting : Setting} {nested : Nested} {node : Node}

/-- A step that fails does so because of a run that it started, or it is to blame itself:
    then its failure names its word, its place and the stack before it, and is no fault of
    another text than its own. -/
theorem stepNode_failure
    (h : stepNode setting nested node stack m = (.error (.failure failure), m')) :
    (∃ body s k, NodeStarts setting nested node stack m body s k
        ∧ nested body s k = (.error (.failure failure), m'))
      ∨ failure.blamedOn node.token node.place? stack
          = .ofStep failure.cause node.culprit node.place? stack
        ∧ node.place?.isSome
        ∧ ∀ fault, failure.cause = .source fault →
          fault.name = node.place?.bind (·.origin.name?) := by
  cases node with
  | cell c => cases h
  | word name place =>
    have h := (stepNode_error_iff (by simp)).mp h
    rw [executeNode] at h
    obtain ⟨target, hresolve⟩ | hresolve := setting.library.resolve_cases name (some place)
    · rw [hresolve] at h
      cases target with
      | function key function =>
        have hown : failure.Belongs name (some place) stack := applyFunction_error h
        exact Or.inr ⟨hown.blamedOn, rfl, hown.origin⟩
      | command key command =>
        have hown : failure.Belongs name (some place) stack := applyCommand_error h
        exact Or.inr ⟨hown.blamedOn, rfl, hown.origin⟩
      | definition program => exact Or.inl ⟨_, _, _, .call hresolve, h⟩
    · rw [hresolve] at h
      cases h
      have hown := unresolved_belongs name place stack
      exact Or.inr ⟨hown.blamedOn, rfl, hown.origin⟩
  | block body combinator place =>
    have h := (stepNode_error_iff (by simp)).mp h
    obtain ⟨s, k, hstarts, hrun⟩ | ⟨cause, hnot, hcause⟩ := applyBlock_failure h
    · exact Or.inl ⟨_, _, _, .block hstarts, hrun⟩
    · cases hcause
      exact Or.inr ⟨rfl, rfl, fun fault hfault => absurd hfault (hnot fault)⟩
  | branch test consequent alternative place =>
    rw [stepNode_branch] at h
    split at h
    · cases h
      have hown : failure.Belongs test.keyword (some place) stack := selectBranch_error ‹_›
      exact Or.inr ⟨hown.blamedOn, rfl, hown.origin⟩
    · cases h
  | store name place =>
    have h := (stepNode_error_iff (by simp)).mp h
    cases stack with
    | nil =>
      cases h
      exact Or.inr ⟨rfl, rfl, fun _ hfault => by cases hfault⟩
    | cons cell rest => cases h
  | fetch name place =>
    have h := (stepNode_error_iff (by simp)).mp h
    rw [executeNode] at h
    split at h
    · cases h
      exact Or.inr ⟨rfl, rfl, fun _ hfault => by cases hfault⟩
    · cases h

/-! ## Frames at work -/

/-- A frame at work: how deep frames can be nested in it, how many steps it has done, its
    queue, its stack, and the machine. -/
structure Frame where
  depth : Nat
  step : Nat
  queue : List Node
  stack : Stack
  machine : Machine

namespace Frame

/-- The outcome of a frame. -/
def run (setting : Setting) (f : Frame) : Reply Stack :=
  runFrame setting (StackCalc.run setting f.depth) f.step f.queue f.stack f.machine

/-- The machine on which a frame takes its next step. -/
def poised (setting : Setting) (f : Frame) : Machine :=
  traced setting f.step f.queue f.stack f.machine

/-- A frame goes on to its next state behind a step that succeeded. -/
inductive Advances (setting : Setting) : Frame → Frame → Prop
  | step {f : Frame} {node : Node} {rest front : List Node} {next : Stack} {m : Machine}
      (queue : f.queue = node :: rest)
      (succeeded : stepNode setting (StackCalc.run setting f.depth) node f.stack (f.poised setting)
        = (.ok (next, front), m)) :
      Advances setting f ⟨f.depth, f.step + 1, front ++ rest, next, m⟩

/-- A frame enters another one that its next step starts. -/
inductive Enters (setting : Setting) : Frame → Frame → Prop
  | start {f : Frame} {below : Nat} {node : Node} {rest body : List Node} {s : Stack}
      {k : Machine} (depth : f.depth = below + 1) (queue : f.queue = node :: rest)
      (starts : NodeStarts setting (StackCalc.run setting f.depth) node f.stack
        (f.poised setting) body s k) :
      Enters setting f ⟨below, 0, body, s, k⟩

/-- The frames that are at work at some time in the run of a frame. -/
inductive Reaches (setting : Setting) : Frame → Frame → Prop
  | refl (f : Frame) : Reaches setting f f
  | advance {f g inner : Frame} (advances : f.Advances setting g)
      (reaches : Reaches setting g inner) : Reaches setting f inner
  | enter {f g inner : Frame} (enters : f.Enters setting g)
      (reaches : Reaches setting g inner) : Reaches setting f inner

/-- The next step of a frame, that of a node, fails by itself: every frame that it enters
    finishes. -/
structure Stumbles (setting : Setting) (f : Frame) (node : Node) (failure : Failure)
    (m : Machine) : Prop where
  queue : ∃ rest, f.queue = node :: rest
  fails : stepNode setting (StackCalc.run setting f.depth) node f.stack (f.poised setting)
    = (.error (.failure failure), m)
  finish : ∀ g, f.Enters setting g → ∃ last k, g.run setting = (.ok last, k)

variable {f g inner : Frame} {error : Error}

theorem Advances.run_eq (h : f.Advances setting g) : f.run setting = g.run setting := by
  cases h with
  | step queue succeeded =>
    rw [poised, queue] at succeeded
    rw [run, queue, runFrame_cons, succeeded]
    rfl

theorem Enters.depth_lt (h : f.Enters setting g) : g.depth < f.depth := by
  cases h with
  | start depth queue starts =>
    rw [depth]
    exact Nat.lt_succ_self _

/-- The error of a frame is the error of the step that entered it. -/
theorem Enters.step_error (h : f.Enters setting g) (hrun : g.run setting = (.error error, m)) :
    ∃ node rest, f.queue = node :: rest
      ∧ stepNode setting (StackCalc.run setting f.depth) node f.stack (f.poised setting)
        = (.error error, m) := by
  cases h with
  | @start below node rest body s k depth queue starts =>
    refine ⟨node, rest, queue, stepNode_of_starts starts ?_⟩
    rw [depth]
    exact hrun

/-- A run that a step starts, and that fails, is a frame that is entered. -/
theorem exists_enters {rest body : List Node} {s : Stack} {k : Machine}
    (queue : f.queue = node :: rest)
    (hstarts : NodeStarts setting (StackCalc.run setting f.depth) node f.stack
      (f.poised setting) body s k)
    (hrun : StackCalc.run setting f.depth body s k = (.error (.failure failure), m)) :
    ∃ g, f.Enters setting g ∧ g.run setting = (.error (.failure failure), m) := by
  cases hdepth : f.depth with
  | zero =>
    rw [hdepth] at hrun
    cases hrun
  | succ below =>
    refine ⟨_, .start hdepth queue hstarts, ?_⟩
    rw [hdepth] at hrun
    exact hrun

/-- A frame fails with the error of its step, blamed on the node. -/
theorem run_of_step_error {rest : List Node} (queue : f.queue = node :: rest)
    (hstep : stepNode setting (StackCalc.run setting f.depth) node f.stack (f.poised setting)
      = (.error error, m)) :
    f.run setting = (.error (error.blamedOnNode node f.stack), m) := by
  rw [poised, queue] at hstep
  rw [run, queue, runFrame_cons, hstep]

/-- A step that fails by itself is to blame itself. -/
theorem Stumbles.own (h : f.Stumbles setting node failure m) :
    failure.blamedOn node.token node.place? f.stack
        = .ofStep failure.cause node.culprit node.place? f.stack
      ∧ node.place?.isSome
      ∧ ∀ fault, failure.cause = .source fault →
        fault.name = node.place?.bind (·.origin.name?) := by
  obtain ⟨rest, queue⟩ := h.queue
  obtain ⟨body, s, k, hstarts, hrun⟩ | hown := stepNode_failure h.fails
  · obtain ⟨g, henters, hg⟩ := exists_enters queue hstarts hrun
    obtain ⟨last, k', hfinish⟩ := h.finish g henters
    rw [hg] at hfinish
    cases hfinish
  · exact hown

/-- A frame whose next step fails by itself names that step in its failure. -/
theorem Stumbles.run_eq (h : f.Stumbles setting node failure m) :
    f.run setting
        = (.error (.failure (.ofStep failure.cause node.culprit node.place? f.stack)), m)
      ∧ node.place?.isSome := by
  obtain ⟨rest, queue⟩ := h.queue
  obtain ⟨hblamed, hplace, -⟩ := h.own
  rw [run_of_step_error queue h.fails, ← hblamed]
  exact ⟨rfl, hplace⟩

/-- What the innermost frame names in its failure, all frames around it leave alone. -/
theorem Reaches.run_eq (h : f.Reaches setting inner)
    (hstumbles : inner.Stumbles setting node failure m) :
    f.run setting
      = (.error (.failure (.ofStep failure.cause node.culprit node.place? inner.stack)), m) := by
  induction h with
  | refl f => exact hstumbles.run_eq.1
  | advance advances _ ih => rw [advances.run_eq, ih hstumbles]
  | enter enters _ ih =>
    obtain ⟨outer, rest, queue, hstep⟩ := enters.step_error (ih hstumbles)
    rw [run_of_step_error queue hstep]
    simp only [Error.blamedOnNode, Error.blamedOn,
      Failure.blamedOn_ofStep _ hstumbles.run_eq.2]

/-- A frame that fails has reached a step that failed by itself. -/
theorem exists_stumbles (f : Frame) (h : f.run setting = (.error (.failure failure), m)) :
    ∃ inner node own, f.Reaches setting inner ∧ inner.Stumbles setting node own m := by
  obtain ⟨depth, step, queue, stack, machine⟩ := f
  -- Entering a frame lowers the depth, going on shortens the queue.
  induction depth using Nat.strongRecOn generalizing step queue stack machine failure m with
  | ind depth ihDepth =>
    induction queue using frameInduction generalizing step stack machine failure m with
    | nil =>
      rw [run, runFrame_nil] at h
      cases h
    | cons node rest ihQueue =>
      cases hstep : stepNode setting (StackCalc.run setting depth) node stack
          (traced setting step (node :: rest) stack machine) with
      | mk outcome k =>
        match outcome with
        | .ok (next, front) =>
          have hadvances : Advances setting ⟨depth, step, node :: rest, stack, machine⟩
              ⟨depth, step + 1, front ++ rest, next, k⟩ := .step rfl hstep
          rw [hadvances.run_eq] at h
          obtain ⟨inner, culprit, own, hreaches, hstumbles⟩ :=
            ihQueue front (stepNode_size hstep) _ _ _ h
          exact ⟨inner, culprit, own, .advance hadvances hreaches, hstumbles⟩
        | .error (.fault fault) =>
          rw [run_of_step_error rfl hstep] at h
          cases h
        | .error (.failure own) =>
          have hk : k = m := by
            rw [run_of_step_error rfl hstep] at h
            exact (Prod.mk.inj h).2
          subst hk
          by_cases hfinish : ∀ g, Enters setting ⟨depth, step, node :: rest, stack, machine⟩ g →
              ∃ last k, g.run setting = (.ok last, k)
          · exact ⟨_, node, own, .refl _, ⟨rest, rfl⟩, hstep, hfinish⟩
          · simp only [Classical.not_forall] at hfinish
            obtain ⟨g, henters, hfails⟩ := hfinish
            cases hg : g.run setting with
            | mk result k' =>
              cases result with
              | ok last => exact absurd ⟨last, k', hg⟩ hfails
              | error error =>
                obtain ⟨_, _, hqueue, hstep'⟩ := henters.step_error hg
                cases hqueue
                cases hstep.symm.trans hstep'
                obtain ⟨inner, culprit, own', hreaches, hstumbles⟩ :=
                  ihDepth g.depth henters.depth_lt g.step g.queue g.stack g.machine hg
                exact ⟨inner, culprit, own', .enter henters hreaches, hstumbles⟩

/-! ## Only one step fails by itself -/

theorem Advances.unique (h : f.Advances setting g) (h' : f.Advances setting inner) :
    g = inner := by
  cases h with
  | step queue succeeded =>
    cases h' with
    | step queue' succeeded' =>
      cases queue.symm.trans queue'
      cases succeeded.symm.trans succeeded'
      rfl

/-- A frame that goes on has not failed at its step. -/
theorem Advances.not_step_error {rest : List Node} (h : f.Advances setting g)
    (queue : f.queue = node :: rest)
    (hstep : stepNode setting (StackCalc.run setting f.depth) node f.stack (f.poised setting)
      = (.error error, m)) : False := by
  cases h with
  | step queue' succeeded =>
    cases queue.symm.trans queue'
    cases hstep.symm.trans succeeded

/-- A frame enters at most one frame that fails. -/
theorem Enters.unique {error' : Error} (h : f.Enters setting g) (h' : f.Enters setting inner)
    (hrun : g.run setting = (.error error, m)) (hrun' : inner.run setting = (.error error', m')) :
    g = inner := by
  cases h with
  | @start below node rest body s k depth queue starts =>
    cases h' with
    | @start below' _ _ body' s' k' depth' queue' starts' =>
      cases queue.symm.trans queue'
      cases depth.symm.trans depth'
      rw [depth] at starts starts'
      obtain ⟨rfl, rfl, rfl⟩ := starts.unique starts' hrun hrun'
      rfl

/-- The step that fails by itself is the only one that a run reaches. -/
theorem Reaches.unique {other : Frame} {node' : Node} {own : Failure}
    (h : f.Reaches setting inner) (hinner : inner.Stumbles setting node failure m)
    (h' : f.Reaches setting other) (hother : other.Stumbles setting node' own m') :
    other = inner := by
  induction h with
  | refl f =>
    obtain ⟨rest, queue⟩ := hinner.queue
    cases h' with
    | refl => rfl
    | advance advances _ => exact (advances.not_step_error queue hinner.fails).elim
    | enter enters reaches =>
      obtain ⟨last, k, hfinish⟩ := hinner.finish _ enters
      cases hfinish.symm.trans (reaches.run_eq hother)
  | @advance f g inner advances _ ih =>
    cases h' with
    | refl =>
      obtain ⟨rest, queue⟩ := hother.queue
      exact (advances.not_step_error queue hother.fails).elim
    | advance advances' reaches' =>
      cases advances.unique advances'
      exact ih hinner reaches'
    | enter enters' reaches' =>
      obtain ⟨_, _, queue, hstep⟩ := enters'.step_error (reaches'.run_eq hother)
      exact (advances.not_step_error queue hstep).elim
  | @enter f g inner enters reaches ih =>
    cases h' with
    | refl =>
      obtain ⟨last, k, hfinish⟩ := hother.finish _ enters
      cases hfinish.symm.trans (reaches.run_eq hinner)
    | advance advances' _ =>
      obtain ⟨_, _, queue, hstep⟩ := enters.step_error (reaches.run_eq hinner)
      exact (advances'.not_step_error queue hstep).elim
    | enter enters' reaches' =>
      cases enters.unique enters' (reaches.run_eq hinner) (reaches'.run_eq hother)
      exact ih hinner reaches'

end Frame

/-- The failure of a run names all that a failure can name. -/
theorem run_failure_full {depth : Nat} {nodes : List Node} {stack : Stack} {m m' : Machine}
    (h : run setting depth nodes stack m = (.error (.failure failure), m')) :
    ∃ token place blamed, Option.isSome place
      ∧ failure = .ofStep failure.cause token place blamed := by
  cases depth with
  | zero => cases h
  | succ below =>
    have hframe : (Frame.mk below 0 nodes stack m).run setting
        = (.error (.failure failure), m') := h
    obtain ⟨inner, culprit, own, hreaches, hstumbles⟩ := Frame.exists_stumbles _ hframe
    cases (hreaches.run_eq hstumbles).symm.trans hframe
    exact ⟨_, _, _, hstumbles.run_eq.2, rfl⟩

/-- No step around a run is blamed for its error. -/
theorem run_error_blamed {depth : Nat} {nodes : List Node} {stack : Stack} {m m' : Machine}
    {error : Error} (h : run setting depth nodes stack m = (.error error, m')) (node : Node)
    (outer : Stack) : error.blamedOnNode node outer = error := by
  cases error with
  | fault fault => rfl
  | failure failure =>
    obtain ⟨token, place, blamed, hplace, hfull⟩ := run_failure_full h
    rw [hfull]
    simp only [Error.blamedOnNode, Error.blamedOn, Failure.blamedOn_ofStep _ hplace]

/-- A run fails exactly if it reaches a step that fails by itself, and there is no other
    such step.  The failure names the word of that step, its place, and the stack of the
    innermost frame before it, whatever frames are around it; the machine is as the step
    left it. -/
theorem run_failure_iff (setting : Setting) (depth : Nat) (nodes : List Node) (stack : Stack)
    (m m' : Machine) (failure : Failure) :
    run setting depth nodes stack m = (.error (.failure failure), m') ↔
      ∃ below inner node own,
        depth = below + 1
          ∧ Frame.Reaches setting ⟨below, 0, nodes, stack, m⟩ inner
          ∧ inner.Stumbles setting node own m'
          ∧ failure.cause = own.cause
          ∧ failure.token = some node.culprit
          ∧ failure.place = node.place? ∧ node.place?.isSome
          ∧ failure.stack = some inner.stack
          ∧ ∀ other node' own' k,
              Frame.Reaches setting ⟨below, 0, nodes, stack, m⟩ other →
              other.Stumbles setting node' own' k → other = inner := by
  constructor
  · intro h
    cases depth with
    | zero => cases h
    | succ below =>
      have h : (Frame.mk below 0 nodes stack m).run setting = (.error (.failure failure), m') := h
      obtain ⟨inner, node, own, hreaches, hstumbles⟩ := Frame.exists_stumbles _ h
      have hfailure := (hreaches.run_eq hstumbles).symm.trans h
      cases hfailure
      exact ⟨below, inner, node, own, rfl, hreaches, hstumbles, rfl, rfl, rfl,
        hstumbles.run_eq.2, rfl, fun other node' own' k hother hstumbles' =>
          hreaches.unique hstumbles hother hstumbles'⟩
  · rintro ⟨below, inner, node, own, rfl, hreaches, hstumbles, hcause, htoken, hplace, -,
      hstack, -⟩
    obtain ⟨cause, token, place, before⟩ := failure
    subst hcause htoken hplace hstack
    exact hreaches.run_eq hstumbles

end StackCalc
