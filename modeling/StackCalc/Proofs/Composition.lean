/-
  StackCalc.Proofs.Composition

  The structural meaning of programs.  A frame executes a conditional by putting the
  selected branch in front of its queue.  Here a conditional means one step and then
  the selected branch as a program of its own, and a list of nodes means its first
  node and then the rest on what that leaves (`evaluateNodes`); the two agree
  (`runFrame_related`), so a program in two parts can be run part by part.

  The lines of traces are left out of the comparison, since a trace shows the queue.
-/

import StackCalc.Proofs.Simulation

namespace StackCalc

/-! ## The structural meaning -/

/-- What comes behind a sub-program, whose steps are counted together. -/
def Reply.andThen (first : Reply (Stack × Nat)) (second : Stack → Machine → Reply (Stack × Nat)) :
    Reply (Stack × Nat) :=
  match first with
  | (.error error, m) => (.error error, m)
  | (.ok (between, steps), m) =>
    match second between m with
    | (.error error, m) => (.error error, m)
    | (.ok (stack, more), m) => (.ok (stack, steps + more), m)

mutual

/-- The stack behind a node and the number of steps that it takes: a conditional takes
    one step and those of the branch that it selects. -/
def evaluateNode (setting : Setting) (nested : Nested) :
    Node → Stack → Machine → Reply (Stack × Nat)
  | .branch test consequent alternative place, stack, m =>
    match selectBranch test stack with
    | .error error => (.error (error.blamedOn test.keyword (some place) stack), m)
    | .ok (condition, below) =>
      Reply.andThen (.ok (below, 1), m)
        (if condition then evaluateNodes setting nested consequent
          else evaluateNodes setting nested alternative)
  | node, stack, m =>
    match executeNode setting nested node stack m with
    | (.error error, m) => (.error (error.blamedOnNode node stack), m)
    | (.ok next, m) => (.ok (next, 1), m)

/-- The stack behind a list of nodes and the number of steps that they take. -/
def evaluateNodes (setting : Setting) (nested : Nested) :
    List Node → Stack → Machine → Reply (Stack × Nat)
  | [], stack, m => (.ok (stack, 0), m)
  | node :: rest, stack, m =>
    (evaluateNode setting nested node stack m).andThen (evaluateNodes setting nested rest)

end

/-- A sub-program as a frame of its own, of which some steps were done before. -/
def Reply.asFrame (step : Nat) (reply : Reply (Stack × Nat)) : Reply Stack :=
  match reply with
  | (.error error, m) => (.error error, m)
  | (.ok (stack, steps), m) => (.ok stack, m.finish (step + steps))

/-- The structural meaning of programs in frames that are nested at most `depth`
    deep. -/
def evaluate (setting : Setting) : Nat → Nested
  | 0 => fun _ _ m => (.error (.fault .tooDeep), m)
  | depth + 1 => fun nodes stack m =>
    (evaluateNodes setting (evaluate setting depth) nodes stack m).asFrame 0

/-! ## Sub-programs in sequence -/

variable {setting : Setting} {nested nested' : Nested}

theorem Reply.andThen_assoc (first : Reply (Stack × Nat))
    (second third : Stack → Machine → Reply (Stack × Nat)) :
    (first.andThen second).andThen third
      = first.andThen fun stack m => (second stack m).andThen third := by
  obtain ⟨_ | ⟨between, steps⟩, m⟩ := first
  · rfl
  · simp only [Reply.andThen]
    obtain ⟨_ | ⟨next, more⟩, m⟩ := second between m
    · rfl
    · dsimp only
      obtain ⟨_ | ⟨last, further⟩, m⟩ := third next m
      · rfl
      · simp only [Nat.add_assoc]

@[simp] theorem evaluateNodes_nil (stack : Stack) (m : Machine) :
    evaluateNodes setting nested [] stack m = (.ok (stack, 0), m) := by
  rw [evaluateNodes]

theorem evaluateNodes_append (p q : List Node) (stack : Stack) (m : Machine) :
    evaluateNodes setting nested (p ++ q) stack m
      = (evaluateNodes setting nested p stack m).andThen (evaluateNodes setting nested q) := by
  induction p generalizing stack m with
  | nil =>
    rw [List.nil_append, evaluateNodes_nil]
    simp only [Reply.andThen, Nat.zero_add]
    obtain ⟨_ | ⟨last, steps⟩, m⟩ := evaluateNodes setting nested q stack m <;> rfl
  | cons node rest ih =>
    rw [List.cons_append, evaluateNodes, evaluateNodes, Reply.andThen_assoc]
    congr 1
    funext stack m
    exact ih stack m

/-- The meaning of a node from the step that a frame takes. -/
theorem evaluateNode_eq (node : Node) (stack : Stack) (m : Machine) :
    evaluateNode setting nested node stack m =
      match stepNode setting nested node stack m with
      | (.error error, m) => (.error (error.blamedOnNode node stack), m)
      | (.ok (next, front), m) =>
        Reply.andThen (.ok (next, 1), m) (evaluateNodes setting nested front) := by
  obtain ⟨test, consequent, alternative, place, rfl⟩ | hn := node.branch_or_ne
  · rw [evaluateNode, stepNode_branch]
    cases selectBranch test stack with
    | error error => rfl
    | ok selected =>
      obtain ⟨condition, below⟩ := selected
      cases condition <;> rfl
  · rw [evaluateNode, stepNode_of_ne_branch _ _ hn]
    · obtain ⟨_ | next, m⟩ := executeNode setting nested node stack m
      · rfl
      · simp only [Reply.andThen, evaluateNodes_nil, Nat.add_zero]
    · exact hn

/-- The meaning of a queue follows its frame step by step. -/
theorem evaluateNodes_cons (node : Node) (rest : List Node) (stack : Stack) (m : Machine) :
    evaluateNodes setting nested (node :: rest) stack m =
      match stepNode setting nested node stack m with
      | (.error error, m) => (.error (error.blamedOnNode node stack), m)
      | (.ok (next, front), m) =>
        Reply.andThen (.ok (next, 1), m) (evaluateNodes setting nested (front ++ rest)) := by
  rw [evaluateNodes, evaluateNode_eq]
  obtain ⟨_ | ⟨next, front⟩, m⟩ := stepNode setting nested node stack m
  · rfl
  · simp only [Reply.andThen_assoc]
    congr 1
    funext stack m
    exact (evaluateNodes_append front rest stack m).symm

/-! ## Frames -/

variable {steps frames : Nat} {m n : Machine}

/-- A frame has the result of the structural meaning of its queue. -/
theorem runFrame_related
    (halike : ∀ body, RunsAlike (Machine.Ahead steps frames) (nested body) (nested' body))
    (queue : List Node) (step : Nat) (stack : Stack) (h : Machine.Ahead steps frames m n) :
    Reply.Related (Machine.Ahead steps frames) (runFrame setting nested step queue stack m)
      ((evaluateNodes setting nested' queue stack n).asFrame step) := by
  induction queue using frameInduction generalizing step stack m n with
  | nil =>
    rw [runFrame_nil, evaluateNodes_nil]
    exact .of_machines _ (h.finished setting step stack)
  | cons node rest ih =>
    have htraced := h.traced setting step (node :: rest) stack
    obtain ⟨result, m', n', hframe, hmeaning, h'⟩ :=
      (stepNode_related Machine.Ahead.simulation (Eq.refl setting.config)
        (fun _ _ _ => rfl) (fun body _ => halike body) stack htraced).exists
    rw [runFrame_cons, evaluateNodes_cons, hframe, hmeaning]
    match result with
    | .error error => exact .of_machines _ h'
    | .ok (next, front) =>
      have hrest := ih front (stepNode_size hframe) (step + 1) next h'
      -- The step that was taken is counted before the rest of the queue on both sides.
      dsimp only [Reply.andThen]
      revert hrest
      obtain ⟨_ | ⟨last, more⟩, k⟩ := evaluateNodes setting nested' (front ++ rest) next n'
      · exact id
      · simp only [Reply.asFrame, Nat.add_assoc]
        exact id

/-- The structural meaning of a sub-program does not depend on what was counted. -/
theorem evaluateNodes_related (setting : Setting)
    (halike : ∀ body, RunsAlike (Machine.Ahead steps frames) (nested body) (nested' body))
    (queue : List Node) (stack : Stack) (h : Machine.Ahead steps frames m n) :
    Reply.Related (Machine.Ahead steps frames) (evaluateNodes setting nested queue stack m)
      (evaluateNodes setting nested' queue stack n) := by
  induction queue using frameInduction generalizing stack m n with
  | nil =>
    rw [evaluateNodes_nil, evaluateNodes_nil]
    exact .of_machines _ h
  | cons node rest ih =>
    obtain ⟨result, m', n', hfirst, hsecond, h'⟩ :=
      (stepNode_related Machine.Ahead.simulation (Eq.refl setting.config)
        (fun _ _ _ => rfl) (fun body _ => halike body) stack h).exists
    rw [evaluateNodes_cons, evaluateNodes_cons, hfirst, hsecond]
    match result with
    | .error error => exact .of_machines _ h'
    | .ok (next, front) =>
      obtain ⟨outcome, m', n', hfirst', hsecond', h'⟩ :=
        (ih front (stepNode_size hfirst) next h').exists
      dsimp only [Reply.andThen]
      rw [hfirst', hsecond']
      match outcome with
      | .error error => exact .of_machines _ h'
      | .ok (last, more) => exact .of_machines _ h'

/-- A run has the result of the structural meaning of its program. -/
theorem run_related (setting : Setting) (depth : Nat) (nodes : List Node) :
    RunsAlike (Machine.Ahead steps frames) (run setting depth nodes)
      (evaluate setting depth nodes) := by
  induction depth generalizing nodes with
  | zero => exact fun _ _ _ h => .of_machines _ h
  | succ depth ih =>
    intro stack m n h
    exact runFrame_related ih nodes 0 stack h

/-- Results that are computed can be compared. -/
instance instDecidableEqResult {ε α : Type} [DecidableEq ε] [DecidableEq α] :
    DecidableEq (Except ε α)
  | .ok x, .ok y => decidable_of_iff (x = y) (by simp)
  | .error x, .error y => decidable_of_iff (x = y) (by simp)
  | .ok _, .error _ => isFalse nofun
  | .error _, .ok _ => isFalse nofun

/-- The result of a run can be computed by structural recursion. -/
theorem run_result (setting : Setting) (depth : Nat) (nodes : List Node) (stack : Stack)
    (m : Machine) : (run setting depth nodes stack m).1 = (evaluate setting depth nodes stack m).1 :=
  (run_related setting depth nodes stack m m (.refl m)).1

theorem evaluate_related (setting : Setting) (depth : Nat) (nodes : List Node) :
    RunsAlike (Machine.Ahead steps frames) (evaluate setting depth nodes)
      (evaluate setting depth nodes) := by
  induction depth generalizing nodes with
  | zero => exact fun _ _ _ h => .of_machines _ h
  | succ depth ih =>
    intro stack m n h
    obtain ⟨result, m', n', hfirst, hsecond, h'⟩ :=
      (evaluateNodes_related setting ih nodes stack h).exists
    simp only [evaluate, hfirst, hsecond]
    match result with
    | .error error => exact .of_machines _ h'
    | .ok (last, done) => exact .of_machines _ (h'.finish (0 + done))

/-! ## Programs in two parts -/

/-- A program in two parts fails like the first part if that fails, and otherwise has
    the outcome of the second part on what the first one left.  If both parts finish,
    their steps add up; the program is one frame and the parts are two. -/
def InTurn (runner : Nested) (p q : List Node) (stack : Stack) (m : Machine) : Prop :=
  match runner p stack m with
  | (.error error, m₁) =>
    Reply.Related (Machine.Ahead 0 0) (runner (p ++ q) stack m) (.error error, m₁)
  | (.ok between, m₁) =>
    match runner q between m₁ with
    | (.error error, m₂) =>
      ∃ steps, Reply.Related (Machine.Ahead steps 1) (runner (p ++ q) stack m) (.error error, m₂)
    | (.ok last, m₂) =>
      Reply.Related (Machine.Ahead 0 1) (runner (p ++ q) stack m) (.ok last, m₂)

theorem evaluate_inTurn (depth : Nat) (p q : List Node) (stack : Stack) (m : Machine) :
    InTurn (evaluate setting depth) p q stack m := by
  cases depth with
  | zero => exact .of_machines _ (.refl m)
  | succ depth =>
    simp only [InTurn, evaluate, evaluateNodes_append]
    obtain ⟨_ | ⟨between, steps⟩, k⟩ := evaluateNodes setting (evaluate setting depth) p stack m
    · exact .of_machines _ (.refl k)
    -- The second part starts on a machine that has counted the steps of the first part,
    -- and in the joint frame on one that has not.
    · obtain ⟨outcome, k₁, k₂, hjoint, hturn, hk⟩ :=
        (evaluateNodes_related setting (evaluate_related setting depth) q between
          (Machine.Ahead.of_finish k (0 + steps))).exists
      simp only [Reply.asFrame, Reply.andThen, hjoint, hturn]
      cases outcome with
      | error error => exact ⟨_, .of_machines _ hk⟩
      | ok result =>
        obtain ⟨last, more⟩ := result
        have hcounted := hk.finish_add (0 + more)
        simp only [Nat.zero_add] at hcounted ⊢
        exact .of_machines _ hcounted

/-- Two ways to run programs with the same results both run them part by part. -/
theorem InTurn.of_related {runner runner' : Nested}
    (halike : ∀ nodes, RunsAlike (Machine.Ahead 0 0) (runner nodes) (runner' nodes))
    {p q : List Node} {stack : Stack} (h : InTurn runner' p q stack m) :
    InTurn runner p q stack m := by
  obtain ⟨first, m₁, n₁, hp, hp', h₁⟩ := (halike p stack m m (.refl m)).exists
  have hjoint := halike (p ++ q) stack m m (.refl m)
  simp only [InTurn, hp, hp'] at h ⊢
  cases first with
  | error error => exact hjoint.trans (Reply.Related.trans h (.of_machines _ h₁.symm))
  | ok between =>
    obtain ⟨second, m₂, n₂, hq, hq', h₂⟩ := (halike q between m₁ n₁ h₁).exists
    simp only [hq, hq'] at h ⊢
    cases second with
    | error error =>
      obtain ⟨steps, h⟩ := h
      exact ⟨_, hjoint.trans (h.trans (.of_machines _ h₂.symm))⟩
    | ok last => exact hjoint.trans (Reply.Related.trans h (.of_machines _ h₂.symm))

/-- A run agrees with the structural meaning of its program, and a program in two parts
    can be run part by part. -/
theorem run_agrees_evaluate_and_inTurn (setting : Setting) (depth : Nat) (p q : List Node)
    (stack : Stack) (m : Machine) :
    Reply.Related (Machine.Ahead 0 0) (run setting depth p stack m)
        (evaluate setting depth p stack m)
      ∧ InTurn (run setting depth) p q stack m :=
  ⟨run_related setting depth p stack m m (.refl m),
    .of_related (run_related setting depth) (evaluate_inTurn depth p q stack m)⟩

end StackCalc
