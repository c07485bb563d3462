/-
  StackCalc.Proofs.Steps

  The steps that a run takes, in the order in which it takes them, also those of the runs
  inside of it: the bodies of called definitions, and blocks for one item after the other,
  up to the first failure.  `runSteps` lists them for programs that succeed and for programs
  that fail; the steps in the list are those of the frames that are at work at some time of
  the run (`mem_runSteps_iff`).
-/

import StackCalc.Proofs.Blame

namespace StackCalc

/-- A step that was taken: its node, and the stack before it. -/
structure Taken where
  node : Node
  stack : Stack

/-- How the steps of nested runs are listed. -/
abbrev Listing := List Node → Stack → Machine → List Taken

/-! ## Lists of steps -/

/-- The steps of a block that is run on every item. -/
def mapSteps (run : Stack → Machine → Reply Stack) (steps : Stack → Machine → List Taken) :
    List Cell → Machine → List Taken
  | [], _ => []
  | item :: rest, m =>
    steps [item] m ++
      match run [item] m with
      | (.ok [_], m) => mapSteps run steps rest m
      | _ => []

/-- The steps of a block that is run on an accumulator and every item. -/
def accumulateSteps (run : Stack → Machine → Reply Stack) (steps : Stack → Machine → List Taken)
    (accumulator : Cell) : List Cell → Machine → List Taken
  | [], _ => []
  | item :: rest, m =>
    steps [item, accumulator] m ++
      match run [item, accumulator] m with
      | (.ok (next :: _), m) => accumulateSteps run steps next rest m
      | _ => []

/-- The steps of the runs of a block. -/
def blockSteps (run : Stack → Machine → Reply Stack) (steps : Stack → Machine → List Taken)
    (combinator : Combinator) (stack : Stack) (m : Machine) : List Taken :=
  match combinator, stack with
  | .map, stack => mapSteps run steps stack.reverse m
  | .fold, seed :: items => accumulateSteps run steps seed items.reverse m
  | .scan, seed :: items => accumulateSteps run steps seed items.reverse m
  | _, _ => []

/-- The steps of the runs that a node starts. -/
def innerSteps (setting : Setting) (nested : Nested) (listing : Listing) (node : Node)
    (stack : Stack) (m : Machine) : List Taken :=
  match node with
  | .word name place =>
    match setting.library.resolve name (some place) with
    | .ok ⟨_, .definition program⟩ => listing program.nodes stack m
    | _ => []
  | .block body combinator _ => blockSteps (nested body) (listing body) combinator stack m
  | _ => []

/-- The steps of a frame: its first step, those of the runs that the step starts, and, if
    it succeeds, those that are left. -/
def frameSteps (setting : Setting) (nested : Nested) (listing : Listing) (step : Nat)
    (nodes : List Node) (stack : Stack) (m : Machine) : List Taken :=
  match nodes with
  | [] => []
  | node :: rest =>
    let m := traced setting step (node :: rest) stack m
    ⟨node, stack⟩ :: innerSteps setting nested listing node stack m ++
      match _h : stepNode setting nested node stack m with
      | (.ok (next, front), m) =>
        frameSteps setting nested listing (step + 1) (front ++ rest) next m
      | _ => []
termination_by Node.sizeAll nodes
decreasing_by
  have := stepNode_size _h
  rw [Node.sizeAll_append, Node.sizeAll_cons]
  omega

/-- The steps of a run. -/
def runSteps (setting : Setting) : Nat → Listing
  | 0 => fun _ _ _ => []
  | depth + 1 => frameSteps setting (run setting depth) (runSteps setting depth) 0

variable {setting : Setting} {nested : Nested} {listing : Listing} {stack s : Stack}
  {m k : Machine} {taken : Taken}

@[simp] theorem frameSteps_nil (step : Nat) (stack : Stack) (m : Machine) :
    frameSteps setting nested listing step [] stack m = [] := by
  rw [frameSteps]

theorem frameSteps_cons (step : Nat) (node : Node) (rest : List Node) (stack : Stack)
    (m : Machine) :
    frameSteps setting nested listing step (node :: rest) stack m =
      ⟨node, stack⟩ :: innerSteps setting nested listing node stack
          (traced setting step (node :: rest) stack m) ++
        match stepNode setting nested node stack (traced setting step (node :: rest) stack m) with
        | (.ok (next, front), m) =>
          frameSteps setting nested listing (step + 1) (front ++ rest) next m
        | _ => [] := by
  rw [frameSteps]
  split
  · rename_i hstep
    rw [hstep]
  · rename_i hstep
    split
    · exact absurd ‹_› (hstep _ _ _)
    · rfl

/-! ## The steps of blocks -/

section Blocks

variable {run : Stack → Machine → Reply Stack} {steps : Stack → Machine → List Taken}

/-- The steps of a map over items in two parts. -/
theorem mapSteps_append {blame : Cause → Error} {before rest done results : List Cell}
    (h : mapItems run blame done before m = (.ok results, k)) :
    mapSteps run steps (before ++ rest) m
      = mapSteps run steps before m ++ mapSteps run steps rest k := by
  induction before generalizing done m with
  | nil =>
    cases h
    rfl
  | cons item before ih =>
    rw [mapItems] at h
    rw [List.cons_append, mapSteps, mapSteps]
    -- the map goes on only where the run leaves one result
    rcases hitem : run [item] m with ⟨error | _ | ⟨result, _ | ⟨_, _⟩⟩, m⟩ <;> rw [hitem] at h
    · cases h
    · cases h
    · dsimp only at h ⊢
      rw [ih h, List.append_assoc]
    · cases h

/-- The steps of an accumulation over items in two parts. -/
theorem accumulateSteps_append {emptied : Error} {before rest done older : List Cell}
    {accumulator latest : Cell} (hdone : EndsIn done accumulator)
    (h : accumulate run emptied done accumulator before m = (.ok (latest :: older), k)) :
    accumulateSteps run steps accumulator (before ++ rest) m
      = accumulateSteps run steps accumulator before m
        ++ accumulateSteps run steps latest rest k := by
  induction before generalizing done accumulator m with
  | nil =>
    obtain ⟨older', hlatest⟩ := hdone.latest
    rw [accumulate, hlatest] at h
    cases h
    rfl
  | cons item before ih =>
    rw [accumulate] at h
    rw [List.cons_append, accumulateSteps, accumulateSteps]
    rcases hitem : run [item, accumulator] m with ⟨error | _ | ⟨next, left⟩, m⟩ <;> rw [hitem] at h
    · cases h
    · cases h
    · dsimp only at h ⊢
      rw [ih (EndsIn.cons next done) h, List.append_assoc]

/-- A step of a map belongs to the run for one of its items, behind usable ones. -/
theorem exists_of_mem_mapSteps (blame : Cause → Error) {items done : List Cell}
    (h : taken ∈ mapSteps run steps items m) :
    ∃ before item after results k,
      items = before ++ item :: after
        ∧ mapItems run blame done before m = (.ok results, k) ∧ taken ∈ steps [item] k := by
  induction items generalizing done m with
  | nil => cases h
  | cons item items ih =>
    rw [mapSteps] at h
    obtain hfirst | hrest := List.mem_append.mp h
    · exact ⟨[], item, items, done, m, rfl, rfl, hfirst⟩
    · match hitem : run [item] m with
      | (.error error, m) => rw [hitem] at hrest; cases hrest
      | (.ok [], m) => rw [hitem] at hrest; cases hrest
      | (.ok (_ :: _ :: _), m) => rw [hitem] at hrest; cases hrest
      | (.ok [result], m) =>
        rw [hitem] at hrest
        obtain ⟨before, last, after, results, k, rfl, hbefore, hlast⟩ := ih hrest
        refine ⟨item :: before, last, after, results, k, rfl, ?_, hlast⟩
        rw [mapItems, hitem]
        exact hbefore

/-- A step of an accumulation belongs to the run for one of its items, behind usable ones. -/
theorem exists_of_mem_accumulateSteps (emptied : Error) {items done : List Cell}
    {accumulator : Cell} (hdone : EndsIn done accumulator)
    (h : taken ∈ accumulateSteps run steps accumulator items m) :
    ∃ before item after latest older k,
      items = before ++ item :: after
        ∧ accumulate run emptied done accumulator before m = (.ok (latest :: older), k)
        ∧ taken ∈ steps [item, latest] k := by
  induction items generalizing done accumulator m with
  | nil => cases h
  | cons item items ih =>
    rw [accumulateSteps] at h
    obtain hfirst | hrest := List.mem_append.mp h
    · obtain ⟨older, hlatest⟩ := hdone.latest
      refine ⟨[], item, items, accumulator, older, m, rfl, ?_, hfirst⟩
      rw [accumulate, hlatest]
    · rcases hitem : run [item, accumulator] m with ⟨error | _ | ⟨next, left⟩, m⟩ <;>
        rw [hitem] at hrest
      · cases hrest
      · cases hrest
      · obtain ⟨before, last, after, latest, older, k, rfl, hbefore, hlast⟩ :=
          ih (EndsIn.cons next done) hrest
        refine ⟨item :: before, last, after, latest, older, k, rfl, ?_, hlast⟩
        rw [accumulate, hitem]
        exact hbefore

/-- The steps of a block are those of the runs that it starts. -/
theorem mem_blockSteps_iff (place : Place) {combinator : Combinator} :
    taken ∈ blockSteps run steps combinator stack m
      ↔ ∃ s k, BlockStarts run place combinator stack m s k ∧ taken ∈ steps s k := by
  constructor
  · intro h
    have hall : ∀ {combinator seed items}, combinator = .fold ∨ combinator = .scan →
        taken ∈ accumulateSteps run steps seed items.reverse m →
        ∃ s k, BlockStarts run place combinator (seed :: items) m s k ∧ taken ∈ steps s k := by
      intro combinator seed items haccumulates hmem
      obtain ⟨before, item, after, latest, older, k, hitems, husable, htaken⟩ :=
        exists_of_mem_accumulateSteps (combinatorError combinator place (seed :: items)
          (.emptied combinator.keyword)) (EndsIn.nil seed) hmem
      exact ⟨_, k, .accumulate haccumulates hitems husable, htaken⟩
    match combinator, stack with
    | .map, stack =>
      obtain ⟨before, item, after, results, k, hitems, husable, htaken⟩ :=
        exists_of_mem_mapSteps (combinatorError .map place stack) h
      exact ⟨_, k, .map hitems husable, htaken⟩
    | .fold, seed :: items => exact hall (Or.inl rfl) h
    | .scan, seed :: items => exact hall (Or.inr rfl) h
    | .fold, [] | .scan, [] | .unknown _, _ => simp [blockSteps] at h
  · rintro ⟨s, k, hstarts, htaken⟩
    cases hstarts with
    | @map _ _ _ before after results item items usable =>
      rw [blockSteps, items, mapSteps_append usable, mapSteps]
      exact List.mem_append_right _ (List.mem_append_left _ htaken)
    | @accumulate _ rest _ _ before after older seed item latest accumulates items usable =>
      have hmem : taken ∈ accumulateSteps run steps seed rest.reverse m := by
        rw [items, accumulateSteps_append (EndsIn.nil seed) usable, accumulateSteps]
        exact List.mem_append_right _ (List.mem_append_left _ htaken)
      obtain rfl | rfl := accumulates <;> exact hmem

end Blocks

/-- The steps inside of a step are those of the runs that it starts. -/
theorem mem_innerSteps_iff {node : Node} :
    taken ∈ innerSteps setting nested listing node stack m
      ↔ ∃ body s k, NodeStarts setting nested node stack m body s k ∧ taken ∈ listing body s k := by
  constructor
  · intro h
    unfold innerSteps at h
    split at h
    · split at h
      · exact ⟨_, stack, m, .call ‹_›, h⟩
      · cases h
    · rename_i body combinator place
      obtain ⟨s, k, hstarts, htaken⟩ := (mem_blockSteps_iff place).mp h
      exact ⟨body, s, k, .block hstarts, htaken⟩
    · cases h
  · rintro ⟨body, s, k, hstarts, htaken⟩
    cases hstarts with
    | call resolved =>
      rw [innerSteps, resolved]
      exact htaken
    | block starts => exact (mem_blockSteps_iff _).mpr ⟨s, k, starts, htaken⟩

/-! ## Steps and frames at work -/

namespace Frame

variable {f g inner : Frame}

/-- The steps of a frame. -/
def steps (setting : Setting) (f : Frame) : List Taken :=
  frameSteps setting (StackCalc.run setting f.depth) (runSteps setting f.depth) f.step f.queue
    f.stack f.machine

/-- A frame takes a step next. -/
def Takes (f : Frame) (taken : Taken) : Prop :=
  f.stack = taken.stack ∧ ∃ rest, f.queue = taken.node :: rest

theorem Advances.steps_eq (h : f.Advances setting g) :
    ∃ node, f.steps setting = ⟨node, f.stack⟩ :: innerSteps setting (StackCalc.run setting f.depth)
      (runSteps setting f.depth) node f.stack (f.poised setting) ++ g.steps setting := by
  cases h with
  | @step node rest front next m queue succeeded =>
    refine ⟨node, ?_⟩
    rw [poised, queue] at succeeded ⊢
    rw [steps, queue, frameSteps_cons, succeeded]
    rfl

/-- The steps of a frame that is entered are steps of the frame around it. -/
theorem Enters.steps_subset (h : f.Enters setting g) : g.steps setting ⊆ f.steps setting := by
  intro taken htaken
  cases h with
  | @start below node rest body s k depth queue starts =>
    have hinner : taken ∈ innerSteps setting (StackCalc.run setting f.depth)
        (runSteps setting f.depth) node f.stack (f.poised setting) := by
      refine mem_innerSteps_iff.mpr ⟨body, s, k, starts, ?_⟩
      rw [depth]
      exact htaken
    rw [poised, queue] at hinner
    rw [steps, queue, frameSteps_cons]
    exact List.mem_append_left _ (List.mem_cons_of_mem _ hinner)

theorem Reaches.mem_steps (h : f.Reaches setting inner) (htakes : inner.Takes taken) :
    taken ∈ f.steps setting := by
  induction h with
  | refl f =>
    obtain ⟨hstack, rest, queue⟩ := htakes
    rw [steps, queue, frameSteps_cons, hstack]
    exact List.mem_append_left _ (List.mem_cons_self ..)
  | advance advances _ ih =>
    obtain ⟨node, hsteps⟩ := advances.steps_eq
    rw [hsteps]
    exact List.mem_append_right _ (ih htakes)
  | enter enters _ ih => exact enters.steps_subset (ih htakes)

/-- A step that is listed is taken by a frame at work. -/
theorem exists_takes (f : Frame) (h : taken ∈ f.steps setting) :
    ∃ inner, f.Reaches setting inner ∧ inner.Takes taken := by
  obtain ⟨depth, step, queue, stack, machine⟩ := f
  -- Entering a frame lowers the depth, going on shortens the queue.
  induction depth using Nat.strongRecOn generalizing step queue stack machine with
  | ind depth ihDepth =>
    induction queue using frameInduction generalizing step stack machine with
    | nil =>
      rw [steps, frameSteps_nil] at h
      cases h
    | cons node rest ihQueue =>
      rw [steps, frameSteps_cons] at h
      obtain hfirst | hrest := List.mem_append.mp h
      · obtain rfl | hinner := List.mem_cons.mp hfirst
        · exact ⟨_, .refl _, rfl, rest, rfl⟩
        · obtain ⟨body, s, k, hstarts, hmem⟩ := mem_innerSteps_iff.mp hinner
          cases depth with
          | zero => cases hmem
          | succ below =>
            obtain ⟨inner, hreaches, htakes⟩ :=
              ihDepth below (Nat.lt_succ_self _) 0 body s k hmem
            exact ⟨inner, .enter (.start rfl rfl hstarts) hreaches, htakes⟩
      · split at hrest
        · rename_i next front k hstep
          obtain ⟨inner, hreaches, htakes⟩ :=
            ihQueue front (stepNode_size hstep) (step + 1) next k hrest
          exact ⟨inner, .advance (.step rfl hstep) hreaches, htakes⟩
        · cases hrest

end Frame

/-- The steps of a run are those that the frames at work take at some time. -/
theorem mem_runSteps_iff {depth : Nat} {nodes : List Node} :
    taken ∈ runSteps setting (depth + 1) nodes stack m
      ↔ ∃ inner, Frame.Reaches setting ⟨depth, 0, nodes, stack, m⟩ inner ∧ inner.Takes taken :=
  ⟨Frame.exists_takes ⟨depth, 0, nodes, stack, m⟩, fun ⟨_, hreaches, htakes⟩ =>
    hreaches.mem_steps htakes⟩

end StackCalc
