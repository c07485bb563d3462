/-
  StackCalc.Proofs.Simulation

  Runs on two machines side by side.  A `Machine.Simulation` relates machines that
  differ only in what no step looks at, such as the lines of a trace or the steps
  counted so far; every step then has the same result on both and leaves them
  related (`stepNode_related`).  Where one side may give up before it has an answer,
  because its frames may not be nested any deeper, the two agree up to that
  (`stepNode_agree`).
-/

import StackCalc.Proofs.Frame

namespace StackCalc

/-- Two replies with the same result, of machines in a relation. -/
def Reply.Related {α : Type} (R : Machine → Machine → Prop) (x y : Reply α) : Prop :=
  x.1 = y.1 ∧ R x.2 y.2

/-- Two ways to run a block or body that have the same result on every stack, on
    machines in a relation. -/
def RunsAlike (R : Machine → Machine → Prop) (first second : Stack → Machine → Reply Stack) :
    Prop :=
  ∀ stack m n, R m n → Reply.Related R (first stack m) (second stack n)

/-- A relation of machines that every step keeps that draws no random number: related
    machines have the same memory, and stay related when both store or print the same. -/
structure Machine.Quiet (R : Machine → Machine → Prop) : Prop where
  memory : ∀ {m n}, R m n → m.memory = n.memory
  store : ∀ {m n}, R m n → ∀ memory, R { m with memory := memory } { n with memory := memory }
  print : ∀ {m n}, R m n → ∀ line, R (m.note (.print line)) (n.note (.print line))

/-- Related machines draw the same random numbers and stay related. -/
def Machine.DrawsAlike (R : Machine → Machine → Prop) : Prop :=
  ∀ m n, R m n → m.draw.1 = n.draw.1 ∧ R m.draw.2 n.draw.2

/-- A relation of machines that every step keeps: related machines have the same
    memory and random numbers, and stay related when both store, print or draw the
    same. -/
structure Machine.Simulation (R : Machine → Machine → Prop) : Prop extends Machine.Quiet R where
  draw : ∀ {m n}, R m n → m.draw.1 = n.draw.1 ∧ R m.draw.2 n.draw.2

theorem Machine.Simulation.drawsAlike {R : Machine → Machine → Prop}
    (hR : Machine.Simulation R) : Machine.DrawsAlike R :=
  fun _ _ h => hR.draw h

variable {R : Machine → Machine → Prop} {m n : Machine}

theorem Reply.Related.of_machines {α : Type} (result : Except Error α) (h : R m n) :
    Reply.Related R (result, m) (result, n) := ⟨rfl, h⟩

/-- Related replies have one result between them. -/
theorem Reply.Related.exists {α : Type} {x y : Reply α} (h : Reply.Related R x y) :
    ∃ result m n, x = (result, m) ∧ y = (result, n) ∧ R m n :=
  ⟨x.1, x.2, y.2, rfl, Prod.ext h.1.symm rfl, h.2⟩

/-! ## Replies that agree as far as they go -/

/-- Two replies agree: they have the same result, of machines in a relation, unless one
    of them has given up with an error that is no answer. -/
def Reply.Agree {α : Type} (gaveUp gaveUp' : Error → Prop) (R : Machine → Machine → Prop)
    (x y : Reply α) : Prop :=
  (∃ error m, x = (.error error, m) ∧ gaveUp error)
    ∨ (∃ error n, y = (.error error, n) ∧ gaveUp' error)
    ∨ ∃ result m n, x = (result, m) ∧ y = (result, n) ∧ R m n

/-- Two ways to run a block or body that agree on every stack, on machines in a
    relation. -/
def RunsAgree (gaveUp gaveUp' : Error → Prop) (R : Machine → Machine → Prop)
    (first second : Stack → Machine → Reply Stack) : Prop :=
  ∀ stack m n, R m n → Reply.Agree gaveUp gaveUp' R (first stack m) (second stack n)

/-- The errors of a side that never gives up. -/
def Error.none (_ : Error) : Prop := False

variable {gaveUp gaveUp' : Error → Prop}

theorem Reply.Agree.left {α : Type} {x y : Reply α} {error : Error}
    (hx : x = (.error error, m)) (h : gaveUp error) : Reply.Agree gaveUp gaveUp' R x y :=
  Or.inl ⟨error, m, hx, h⟩

theorem Reply.Agree.right {α : Type} {x y : Reply α} {error : Error}
    (hy : y = (.error error, n)) (h : gaveUp' error) : Reply.Agree gaveUp gaveUp' R x y :=
  Or.inr (Or.inl ⟨error, n, hy, h⟩)

theorem Reply.Agree.same {α : Type} (result : Except Error α) (h : R m n) :
    Reply.Agree gaveUp gaveUp' R (result, m) (result, n) :=
  Or.inr (Or.inr ⟨result, m, n, rfl, rfl, h⟩)

theorem Reply.Related.agree {α : Type} {x y : Reply α} (h : Reply.Related R x y) :
    Reply.Agree gaveUp gaveUp' R x y :=
  Or.inr (Or.inr h.exists)

/-- Two replies of which none gives up agree exactly if they are related. -/
theorem Reply.Agree.related {α : Type} {x y : Reply α}
    (h : Reply.Agree Error.none Error.none R x y) : Reply.Related R x y := by
  obtain ⟨_, _, _, hnone⟩ | ⟨_, _, _, hnone⟩ | ⟨result, m, n, rfl, rfl, hR⟩ := h
  · exact hnone.elim
  · exact hnone.elim
  · exact .of_machines result hR

theorem RunsAlike.agree {first second : Stack → Machine → Reply Stack}
    (h : RunsAlike R first second) : RunsAgree gaveUp gaveUp' R first second :=
  fun stack m n hR => (h stack m n hR).agree

/-! ## Machines that have counted more -/

/-- The lines that a program printed itself, last first. -/
def Machine.printed (m : Machine) : List String :=
  m.events.filterMap fun
    | .print line => some line
    | .trace _ => none

/-- The second machine is like the first, but has counted a number of steps and of
    finished frames more; the lines of traces may differ. -/
structure Machine.Ahead (steps frames : Nat) (m n : Machine) : Prop where
  memory : n.memory = m.memory
  printed : n.printed = m.printed
  seed : n.seed = m.seed
  steps : n.steps = m.steps + steps
  frames : n.frames = m.frames + frames

namespace Machine

variable {steps frames steps' frames' : Nat} {k : Machine}

theorem Ahead.refl (m : Machine) : Ahead 0 0 m m := ⟨rfl, rfl, rfl, rfl, rfl⟩

theorem Ahead.symm (h : Ahead 0 0 m n) : Ahead 0 0 n m :=
  ⟨h.memory.symm, h.printed.symm, h.seed.symm, h.steps.symm, h.frames.symm⟩

theorem Ahead.trans (h : Ahead steps frames m n) (h' : Ahead steps' frames' n k) :
    Ahead (steps + steps') (frames + frames') m k where
  memory := h'.memory.trans h.memory
  printed := h'.printed.trans h.printed
  seed := h'.seed.trans h.seed
  steps := by rw [h'.steps, h.steps, Nat.add_assoc]
  frames := by rw [h'.frames, h.frames, Nat.add_assoc]

/-- A frame that finishes counts its steps and itself. -/
theorem Ahead.of_finish (m : Machine) (done : Nat) : Ahead done 1 m (m.finish done) :=
  ⟨rfl, rfl, rfl, rfl, rfl⟩

/-- A frame that finishes with its steps in one sum is as far as one that counted some
    of them in a frame before. -/
theorem Ahead.finish_add (h : Ahead steps 1 m n) (done : Nat) :
    Ahead 0 1 (m.finish (steps + done)) (n.finish done) where
  memory := h.memory
  printed := h.printed
  seed := h.seed
  steps := by simp only [Machine.finish, h.steps]; omega
  frames := by simp only [Machine.finish, h.frames]

/-- Machines with the same random numbers draw the same, which changes nothing else. -/
theorem draw_of_seed (seed : Nat) :
    ∃ fraction next, ∀ m : Machine, m.seed = seed → m.draw = (fraction, { m with seed := next }) :=
  ⟨_, _, fun m h => by rw [draw, h]⟩

/-- No step looks at what was counted. -/
theorem Ahead.simulation : Simulation (Ahead steps frames) where
  memory h := h.memory.symm
  store h _ := ⟨rfl, h.printed, h.seed, h.steps, h.frames⟩
  print h line := ⟨h.memory, congrArg (line :: ·) h.printed, h.seed, h.steps, h.frames⟩
  draw {m n} h := by
    obtain ⟨fraction, seed, hdraw⟩ := draw_of_seed m.seed
    rw [hdraw m rfl, hdraw n h.seed]
    exact ⟨rfl, h.memory, h.printed, rfl, h.steps, h.frames⟩

theorem Ahead.finish (h : Ahead steps frames m n) (done : Nat) :
    Ahead steps frames (m.finish done) (n.finish done) where
  memory := h.memory
  printed := h.printed
  seed := h.seed
  steps := by simp only [Machine.finish, h.steps]; omega
  frames := by simp only [Machine.finish, h.frames]; omega

theorem Ahead.traced (h : Ahead steps frames m n) (setting : Setting) (step : Nat)
    (nodes : List Node) (stack : Stack) :
    Ahead steps frames (traced setting step nodes stack m) n := by
  rw [StackCalc.traced]
  split
  · exact ⟨h.memory, h.printed, h.seed, h.steps, h.frames⟩
  · exact h

theorem Ahead.finished (h : Ahead steps frames m n) (setting : Setting) (step : Nat)
    (stack : Stack) : Ahead steps frames (finished setting step stack m) (n.finish step) := by
  rw [StackCalc.finished]
  refine Ahead.finish ?_ step
  split
  · exact ⟨h.memory, h.printed, h.seed, h.steps, h.frames⟩
  · exact h

end Machine

theorem Reply.Related.trans {α : Type} {steps frames steps' frames' : Nat} {x y z : Reply α}
    (h : Reply.Related (Machine.Ahead steps frames) x y)
    (h' : Reply.Related (Machine.Ahead steps' frames') y z) :
    Reply.Related (Machine.Ahead (steps + steps') (frames + frames')) x z :=
  ⟨h.1.trans h'.1, h.2.trans h'.2⟩

/-! ## Functions and commands -/

theorem applyFunction_related (hR : Machine.Quiet R) {function : Function}
    (hdraw : function = .random → Machine.DrawsAlike R) (name : String) (stack : Stack)
    (h : R m n) :
    Reply.Related R (applyFunction function name stack m) (applyFunction function name stack n) := by
  cases function with
  | native operation => exact .of_machines _ h
  | print =>
    simp only [applyFunction]
    split
    · exact .of_machines _ h
    · exact .of_machines _ (hR.print h _)
    · exact .of_machines _ h
  | random =>
    obtain ⟨hfraction, hdrawn⟩ := hdraw rfl m n h
    simp only [applyFunction]
    split
    · exact .of_machines _ h
    · split
      · exact .of_machines _ h
      · rw [hfraction]
        exact .of_machines _ hdrawn
    · exact .of_machines _ h

theorem applyCommand_related (hR : Machine.Quiet R) (config : Config) (command : Command)
    (name : String) (stack : Stack) (h : R m n) :
    Reply.Related R (applyCommand config command name stack m)
      (applyCommand config command name stack n) := by
  have hm := hR.memory h
  cases command with
  | clear => exact .of_machines _ h
  | recallSlot slot =>
    rw [applyCommand, applyCommand, hm]
    exact .of_machines _ h
  | storeSlot slot =>
    simp only [applyCommand]
    split
    · exact .of_machines _ h
    · rw [hm]
      exact .of_machines _ (hR.store h _)
    · exact .of_machines _ h
  | roll | rotate | scale factor =>
    simp only [applyCommand]
    split <;> exact .of_machines _ h
  | reduce reduction =>
    rw [applyCommand, applyCommand]
    split
    · exact .of_machines _ h
    · split
      · exact .of_machines _ h
      · split
        · split <;> exact .of_machines _ h
        · exact .of_machines _ h

/-! ## Blocks -/

variable {first second : Stack → Machine → Reply Stack}

theorem mapItems_agree (hagree : RunsAgree gaveUp gaveUp' R first second) (blame : Cause → Error)
    (items : List Cell) (done : List Cell) (h : R m n) :
    Reply.Agree gaveUp gaveUp' R (mapItems first blame done items m)
      (mapItems second blame done items n) := by
  induction items generalizing done m n with
  | nil => exact .same _ h
  | cons item rest ih =>
    obtain ⟨error, m', hfirst, hgave⟩ | ⟨error, n', hsecond, hgave⟩ |
      ⟨result, m', n', hfirst, hsecond, h'⟩ := hagree [item] m n h
    · exact .left (by rw [mapItems, hfirst]) hgave
    · exact .right (by rw [mapItems, hsecond]) hgave
    · rw [mapItems, mapItems, hfirst, hsecond]
      match result with
      | .error error => exact .same _ h'
      | .ok [] => exact .same _ h'
      | .ok [result] => exact ih (result :: done) h'
      | .ok (_ :: _ :: _) => exact .same _ h'

theorem accumulate_agree (hagree : RunsAgree gaveUp gaveUp' R first second) (emptied : Error)
    (items : List Cell) (done : List Cell) (accumulator : Cell) (h : R m n) :
    Reply.Agree gaveUp gaveUp' R (accumulate first emptied done accumulator items m)
      (accumulate second emptied done accumulator items n) := by
  induction items generalizing done accumulator m n with
  | nil => exact .same _ h
  | cons item rest ih =>
    obtain ⟨error, m', hfirst, hgave⟩ | ⟨error, n', hsecond, hgave⟩ |
      ⟨result, m', n', hfirst, hsecond, h'⟩ := hagree [item, accumulator] m n h
    · exact .left (by rw [accumulate, hfirst]) hgave
    · exact .right (by rw [accumulate, hsecond]) hgave
    · rw [accumulate, accumulate, hfirst, hsecond]
      match result with
      | .error error => exact .same _ h'
      | .ok [] => exact .same _ h'
      | .ok (next :: _) => exact ih (next :: done) next h'

variable {nested nested' : Nested} {body body' : List Node}

theorem accumulateStack_agree (hagree : RunsAgree gaveUp gaveUp' R (nested body) (nested' body'))
    (combinator : Combinator) (place : Place) (stack : Stack) (h : R m n) :
    Reply.Agree gaveUp gaveUp' R (accumulateStack nested body combinator place stack m)
      (accumulateStack nested' body' combinator place stack n) := by
  cases stack with
  | nil => exact .same _ h
  | cons seed items => exact accumulate_agree hagree _ _ _ _ h

/-- Two blocks whose bodies agree on every stack agree under every combinator. -/
theorem applyBlock_agree (hagree : RunsAgree gaveUp gaveUp' R (nested body) (nested' body'))
    (combinator : Combinator) (place : Place) (stack : Stack) (h : R m n) :
    Reply.Agree gaveUp gaveUp' R (applyBlock nested body combinator place stack m)
      (applyBlock nested' body' combinator place stack n) := by
  have hall := accumulateStack_agree hagree combinator place stack h
  cases combinator with
  | map => exact mapItems_agree hagree _ _ _ h
  | fold =>
    obtain ⟨error, m', hfirst, hgave⟩ | ⟨error, n', hsecond, hgave⟩ |
      ⟨result, m', n', hfirst, hsecond, h'⟩ := hall
    · exact .left (by rw [applyBlock, hfirst]) hgave
    · exact .right (by rw [applyBlock, hsecond]) hgave
    · rw [applyBlock, applyBlock, hfirst, hsecond]
      cases result with
      | error error => exact .same _ h'
      | ok results => exact .same _ h'
  | scan =>
    simp only [applyBlock]
    split
    · exact .same _ h
    · exact hall
  | unknown keyword => exact .same _ h

/-! ## Nodes -/

/-- A node that draws a random number: a word for the function that does. -/
def Node.Draws (library : Library) (node : Node) : Prop :=
  ∃ name place called key, node = .word name place
    ∧ library.resolve name (some place) = .ok ⟨called, .function key .random⟩

variable {setting setting' : Setting} {node : Node}

/-- A node has the same result on related machines if its word stands for the same
    under both settings, the bodies that it runs agree, and related machines draw the
    same in case the node draws. -/
theorem executeNode_agree (hR : Machine.Quiet R)
    (hdraw : node.Draws setting.library → Machine.DrawsAlike R)
    (hconfig : setting.config = setting'.config)
    (hword : ∀ name place, node = .word name place →
      setting.library.resolve name (some place) = setting'.library.resolve name (some place))
    (hagree : ∀ body, node.Runs setting.library body →
      RunsAgree gaveUp gaveUp' R (nested body) (nested' body))
    (stack : Stack) (h : R m n) :
    Reply.Agree gaveUp gaveUp' R (executeNode setting nested node stack m)
      (executeNode setting' nested' node stack n) := by
  have hm := hR.memory h
  cases node with
  | cell c => exact .same _ h
  | word name place =>
    rw [executeNode, executeNode, ← hword name place rfl]
    cases hop : setting.library.resolve name (some place) with
    | error failure => exact .same _ h
    | ok operation =>
      obtain ⟨called, target⟩ := operation
      cases target with
      | function key function =>
        refine (applyFunction_related hR (fun hrandom => ?_) called stack h).agree
        exact hdraw ⟨name, place, called, key, rfl, hrandom ▸ hop⟩
      | command key command =>
        simp only [execute, ← hconfig]
        exact (applyCommand_related hR setting.config command called stack h).agree
      | definition program => exact hagree _ (.word hop) stack m n h
  | block body combinator place => exact applyBlock_agree (hagree _ (.block ..)) _ _ _ h
  | branch test consequent alternative place => exact .same _ h
  | store name place =>
    cases stack with
    | nil => exact .same _ h
    | cons cell rest =>
      simp only [executeNode, hm]
      exact .same _ (hR.store h _)
  | fetch name place =>
    rw [executeNode, executeNode, hm]
    split <;> exact .same _ h

/-- The steps of two nodes that are not conditionals agree if their executions do. -/
theorem stepNode_agree_of_execute {node node' : Node} {stack : Stack}
    (hn : ∀ test consequent alternative place, node ≠ .branch test consequent alternative place)
    (hn' : ∀ test consequent alternative place, node' ≠ .branch test consequent alternative place)
    (h : Reply.Agree gaveUp gaveUp' R (executeNode setting nested node stack m)
      (executeNode setting' nested' node' stack n)) :
    Reply.Agree gaveUp gaveUp' R (stepNode setting nested node stack m)
      (stepNode setting' nested' node' stack n) := by
  rw [stepNode_of_ne_branch _ _ hn, stepNode_of_ne_branch _ _ hn']
  obtain ⟨error, m', hfirst, hgave⟩ | ⟨error, n', hsecond, hgave⟩ |
    ⟨result, m', n', hfirst, hsecond, h'⟩ := h
  · exact .left (by rw [hfirst]) hgave
  · exact .right (by rw [hsecond]) hgave
  · rw [hfirst, hsecond]
    cases result with
    | error error => exact .same _ h'
    | ok next => exact .same _ h'

/-- One step has the same result on related machines, as far as the bodies that it runs
    have answers and machines draw the same. -/
theorem stepNode_agree_of_draws (hR : Machine.Quiet R)
    (hdraw : node.Draws setting.library → Machine.DrawsAlike R)
    (hconfig : setting.config = setting'.config)
    (hword : ∀ name place, node = .word name place →
      setting.library.resolve name (some place) = setting'.library.resolve name (some place))
    (hagree : ∀ body, node.Runs setting.library body →
      RunsAgree gaveUp gaveUp' R (nested body) (nested' body))
    (stack : Stack) (h : R m n) :
    Reply.Agree gaveUp gaveUp' R (stepNode setting nested node stack m)
      (stepNode setting' nested' node stack n) := by
  obtain ⟨test, consequent, alternative, place, rfl⟩ | hn := node.branch_or_ne
  · rw [stepNode_branch, stepNode_branch]
    split <;> exact .same _ h
  · exact stepNode_agree_of_execute hn hn
      (executeNode_agree hR hdraw hconfig hword hagree stack h)

/-- One step has the same result on related machines, as far as the bodies that it runs
    have answers. -/
theorem stepNode_agree (hR : Machine.Simulation R) (hconfig : setting.config = setting'.config)
    (hword : ∀ name place, node = .word name place →
      setting.library.resolve name (some place) = setting'.library.resolve name (some place))
    (hagree : ∀ body, node.Runs setting.library body →
      RunsAgree gaveUp gaveUp' R (nested body) (nested' body))
    (stack : Stack) (h : R m n) :
    Reply.Agree gaveUp gaveUp' R (stepNode setting nested node stack m)
      (stepNode setting' nested' node stack n) :=
  stepNode_agree_of_draws hR.toQuiet (fun _ => hR.drawsAlike) hconfig hword hagree stack h

/-- One step has the same result on related machines. -/
theorem stepNode_related (hR : Machine.Simulation R) (hconfig : setting.config = setting'.config)
    (hword : ∀ name place, node = .word name place →
      setting.library.resolve name (some place) = setting'.library.resolve name (some place))
    (halike : ∀ body, node.Runs setting.library body → RunsAlike R (nested body) (nested' body))
    (stack : Stack) (h : R m n) :
    Reply.Related R (stepNode setting nested node stack m)
      (stepNode setting' nested' node stack n) :=
  (stepNode_agree hR hconfig hword (fun body hruns => (halike body hruns).agree) stack h).related

end StackCalc
