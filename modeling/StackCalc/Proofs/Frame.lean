/-
  StackCalc.Proofs.Frame

  A frame, step by step.  `stepNode` is what one node does, whatever kind of node
  it is: it gives the next stack and the nodes that go in front of the queue, which
  only a conditional has any of.  With `runFrame_cons` every statement about whole
  frames follows from one about a single node, by `frameInduction` on the queue.
-/

import StackCalc.Evaluation

namespace StackCalc

variable {setting : Setting} {nested : Nested}

/-! ## One step -/

/-- One node of a frame: the stack behind it, and the nodes that it puts in front of
    the rest of the queue. -/
def stepNode (setting : Setting) (nested : Nested) (node : Node) (stack : Stack) (m : Machine) :
    Reply (Stack × List Node) :=
  match node with
  | .branch test consequent alternative _ =>
    match selectBranch test stack with
    | .error error => (.error error, m)
    | .ok (condition, below) =>
      (.ok (below, if condition then consequent else alternative), m)
  | node =>
    match executeNode setting nested node stack m with
    | (.error error, m) => (.error error, m)
    | (.ok next, m) => (.ok (next, []), m)

/-- A node is a conditional or it is none. -/
theorem Node.branch_or_ne (node : Node) :
    (∃ test consequent alternative place, node = .branch test consequent alternative place)
      ∨ ∀ test consequent alternative place,
          node ≠ .branch test consequent alternative place := by
  cases node with
  | branch test consequent alternative place =>
    exact Or.inl ⟨test, consequent, alternative, place, rfl⟩
  | _ => exact Or.inr (by simp)

theorem stepNode_branch (test : Test) (consequent alternative : List Node) (place : Place)
    (stack : Stack) (m : Machine) :
    stepNode setting nested (.branch test consequent alternative place) stack m =
      match selectBranch test stack with
      | .error error => (.error error, m)
      | .ok (condition, below) =>
        (.ok (below, if condition then consequent else alternative), m) := rfl

/-- A node that is not a conditional puts nothing in front of the queue. -/
theorem stepNode_of_ne_branch {node : Node} (stack : Stack) (m : Machine)
    (h : ∀ test consequent alternative place,
      node ≠ .branch test consequent alternative place) :
    stepNode setting nested node stack m =
      match executeNode setting nested node stack m with
      | (.error error, m) => (.error error, m)
      | (.ok next, m) => (.ok (next, []), m) := by
  cases node with
  | branch test consequent alternative place =>
    exact absurd rfl (h test consequent alternative place)
  | _ => rfl

/-- A node that is not a conditional fails as it does when it is executed. -/
theorem stepNode_error_iff {node : Node} {stack : Stack} {m m' : Machine} {error : Error}
    (h : ∀ test consequent alternative place,
      node ≠ .branch test consequent alternative place) :
    stepNode setting nested node stack m = (.error error, m')
      ↔ executeNode setting nested node stack m = (.error error, m') := by
  rw [stepNode_of_ne_branch stack m h]
  obtain ⟨_ | next, m⟩ := executeNode setting nested node stack m
  · simp only [Prod.mk.injEq, Except.error.injEq]
  · exact ⟨nofun, nofun⟩

/-- What a step puts in front of the queue is smaller than the node that was there. -/
theorem stepNode_size {node : Node} {stack next : Stack} {front : List Node} {m m' : Machine}
    (h : stepNode setting nested node stack m = (.ok (next, front), m')) :
    Node.sizeAll front < node.size := by
  obtain ⟨test, consequent, alternative, place, rfl⟩ | hn := node.branch_or_ne
  · rw [stepNode_branch] at h
    cases hs : selectBranch test stack with
    | error error => rw [hs] at h; cases h
    | ok selected =>
      obtain ⟨condition, below⟩ := selected
      rw [hs] at h
      simp only [Prod.mk.injEq, Except.ok.injEq] at h
      obtain ⟨⟨-, rfl⟩, -⟩ := h
      have hlt := Node.sizeAll_branch_append test consequent alternative [] place condition
      simpa using hlt
  · rw [stepNode_of_ne_branch stack m hn] at h
    split at h
    · cases h
    · simp only [Prod.mk.injEq, Except.ok.injEq] at h
      obtain ⟨⟨-, rfl⟩, -⟩ := h
      exact Node.size_pos node

/-! ## Frames -/

@[simp] theorem runFrame_nil (step : Nat) (stack : Stack) (m : Machine) :
    runFrame setting nested step [] stack m = (.ok stack, finished setting step stack m) := by
  rw [runFrame]

/-- A frame takes the step of its first node and goes on with what that leaves. -/
theorem runFrame_cons (step : Nat) (node : Node) (rest : List Node) (stack : Stack) (m : Machine) :
    runFrame setting nested step (node :: rest) stack m =
      match stepNode setting nested node stack (traced setting step (node :: rest) stack m) with
      | (.error error, m) => (.error (error.blamedOnNode node stack), m)
      | (.ok (next, front), m) => runFrame setting nested (step + 1) (front ++ rest) next m := by
  obtain ⟨test, consequent, alternative, place, rfl⟩ | hn := node.branch_or_ne
  · rw [runFrame, stepNode_branch]
    cases selectBranch test stack with
    | error error => rfl
    | ok selected => rfl
  · rw [stepNode_of_ne_branch _ _ hn, runFrame]
    · obtain ⟨outcome, m'⟩ :=
        executeNode setting nested node stack (traced setting step (node :: rest) stack m)
      cases outcome with
      | error error => rfl
      | ok next => rfl
    · exact hn

/-- Induction over a queue: behind a step, the queue is the rest of the queue with
    less in front than the node that was executed. -/
theorem frameInduction {motive : List Node → Prop} (nil : motive [])
    (cons : ∀ node rest,
      (∀ front, Node.sizeAll front < node.size → motive (front ++ rest)) →
      motive (node :: rest))
    (queue : List Node) : motive queue := by
  induction hn : Node.sizeAll queue using Nat.strongRecOn generalizing queue with
  | ind n ih =>
    cases queue with
    | nil => exact nil
    | cons node rest =>
      refine cons node rest fun front hfront => ih _ ?_ (front ++ rest) rfl
      rw [← hn, Node.sizeAll_append, Node.sizeAll_cons]
      omega

/-! ## Nested frames -/

/-- The programs that a node runs in frames of their own: the body of its block, or of
    the definition that its word stands for. -/
inductive Node.Runs (library : Library) : Node → List Node → Prop
  | block (body : List Node) (combinator : Combinator) (place : Place) :
      Runs library (.block body combinator place) body
  | word {name : String} {place : Place} {called : String} {program : Program}
      (resolved : library.resolve name (some place) = .ok ⟨called, .definition program⟩) :
      Runs library (.word name place) program.nodes

end StackCalc
