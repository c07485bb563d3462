/-
  StackCalc.Proofs.Inlining

  Calls of a definition and its body in their place.  A call runs the body in a frame of
  its own, with errors blamed there; in place, the body is worked off in the frame of the
  caller.  `Node.InlinesAll` replaces any calls of a name, also inside of blocks and
  branches, and frames of the two programs agree (`runFrame_inlines`).  A call needs one
  more frame than the body in its place, so at equal depth the program with the calls may
  give up first, and one frame deeper it has the results of the other.
-/

import StackCalc.Proofs.Blame
import StackCalc.Proofs.Ending

namespace StackCalc

/-! ## Bodies in place of calls -/

mutual

/-- A node with the calls of a name replaced inside of it, or some of them. -/
inductive Node.Inlines (name : String) (body : List Node) : Node → Node → Prop
  | same (node : Node) : Inlines name body node node
  | block {inside inside' : List Node} (combinator : Combinator) (place : Place)
      (inlines : InlinesAll name body inside inside') :
      Inlines name body (.block inside combinator place) (.block inside' combinator place)
  | branch {consequent consequent' alternative alternative' : List Node} (test : Test)
      (place : Place) (inlines : InlinesAll name body consequent consequent')
      (inlines' : InlinesAll name body alternative alternative') :
      Inlines name body (.branch test consequent alternative place)
        (.branch test consequent' alternative' place)

/-- A program with calls of a name replaced by a body, all of them, some or none. -/
inductive Node.InlinesAll (name : String) (body : List Node) : List Node → List Node → Prop
  | nil : InlinesAll name body [] []
  | keep {node node' : Node} {rest rest' : List Node} (first : Inlines name body node node')
      (others : InlinesAll name body rest rest') :
      InlinesAll name body (node :: rest) (node' :: rest')
  | replace {rest rest' : List Node} (place : Place)
      (others : InlinesAll name body rest rest') :
      InlinesAll name body (.word name place :: rest) (body ++ rest')

end

namespace Node.InlinesAll

variable {name : String} {body p p' q q' : List Node}

theorem refl (p : List Node) : InlinesAll name body p p := by
  induction p with
  | nil => exact .nil
  | cons node rest ih => exact .keep (.same node) ih

theorem append : ∀ {p p'}, InlinesAll name body p p' → InlinesAll name body q q' →
    InlinesAll name body (p ++ q) (p' ++ q')
  | _, _, .nil, h => h
  | _, _, .keep first others, h => .keep first (others.append h)
  | _, _, .replace place others, h => by
    rw [List.append_assoc]
    exact .replace place (others.append h)

end Node.InlinesAll

/-! ## Calls -/

variable {setting : Setting} {name : String} {program : Program}

/-- The words of a name are calls of a definition. -/
def Library.Calls (library : Library) (name : String) (program : Program) : Prop :=
  ∀ place : Place, library.resolve name (some place) = .ok ⟨name, .definition program⟩

/-- A name that is bound and stands for no built-in operation calls its definition. -/
theorem Library.calls_of_bound {library : Library}
    (hbound : library.definitions.get? name = some program)
    (hfree : library.isBuiltin name = false) : library.Calls name program := by
  intro place
  simp only [isBuiltin, Table.contains, Bool.or_eq_false_iff, Option.isSome_eq_false_iff,
    Option.isNone_iff_eq_none] at hfree
  simp only [resolve, hfree.1, hfree.2, hbound]

/-! ## Frames -/

variable {nested nested' : Nested} {gaveUp gaveUp' : Error → Prop} {m n : Machine}

/-- What agrees with a reply agrees with all replies related to it. -/
theorem Reply.Agree.trans_related {α : Type} {x y z : Reply α}
    (h : Reply.Agree gaveUp gaveUp' Machine.Alike x y)
    (h' : Reply.Related Machine.Alike z y) : Reply.Agree gaveUp gaveUp' Machine.Alike x z := by
  obtain ⟨result, k, n, rfl, rfl, hk⟩ := h'.exists
  obtain ⟨error, m, hx, hgave⟩ | ⟨error, n', hy, hgave⟩ | ⟨result', m, n', rfl, hy, hm⟩ := h
  · exact .left hx hgave
  · cases hy
    exact .right rfl hgave
  · cases hy
    exact .same _ (hm.trans hk.symm)

theorem RunsAgree.symm {first second : Stack → Machine → Reply Stack}
    (h : RunsAgree gaveUp gaveUp' Machine.Alike first second) :
    RunsAgree gaveUp' gaveUp Machine.Alike second first := by
  intro stack m n hmn
  obtain ⟨error, k, hx, hgave⟩ | ⟨error, k, hy, hgave⟩ | ⟨result, k, k', hx, hy, hk⟩ :=
    h stack n m hmn.symm
  · exact .right hx hgave
  · exact .left hy hgave
  · rw [hx, hy]
    exact .same _ hk.symm

/-- A frame agrees with the frame of the same queue with some calls replaced, if a call
    agrees with a frame of the body and the programs that the two run inside agree. -/
theorem runFrame_inlines (hleft : Error.Persists gaveUp) (hright : Error.Persists gaveUp')
    (hcalls : setting.library.Calls name program)
    (hagree : ∀ p p', Node.InlinesAll name program.nodes p p' →
      RunsAgree gaveUp gaveUp' Machine.Alike (nested p) (nested' p'))
    (hcall : RunsAgree gaveUp gaveUp' Machine.Alike (nested program.nodes)
      (runFrame setting nested' 0 program.nodes))
    (hblamed : ∀ stack m error m', nested program.nodes stack m = (.error error, m') →
      ∀ node outer, error.blamedOnNode node outer = error)
    (halike : ∀ body, RunsAlike Machine.Alike (nested' body) (nested' body))
    {queue queue' : List Node} (hinlines : Node.InlinesAll name program.nodes queue queue')
    (stack : Stack) (step step' : Nat) (h : Machine.Alike m n) :
    Reply.Agree gaveUp gaveUp' Machine.Alike (runFrame setting nested step queue stack m)
      (runFrame setting nested' step' queue' stack n) := by
  induction queue using frameInduction generalizing queue' stack step step' m n with
  | nil =>
    cases hinlines
    rw [runFrame_nil, runFrame_nil]
    exact .same _ h.finished
  | cons node rest ih =>
    cases hinlines with
    | keep first others =>
      -- What a step puts in front of the queue is the same on both sides, but for branches.
      have hrest : ∀ front next step step' m n, Node.sizeAll front < node.size →
          Machine.Alike m n → Reply.Agree gaveUp gaveUp' Machine.Alike
            (runFrame setting nested step (front ++ rest) next m)
            (runFrame setting nested' step' (front ++ _) next n) :=
        fun front next step step' m n hfront h =>
          ih front hfront ((Node.InlinesAll.refl front).append others) next step step' h
      cases first with
      | same =>
        refine runFrame_cons_agree node node hleft hright rfl rfl (fun m n h => ?_) hrest step
          step' h
        exact stepNode_agree Machine.Alike.simulation rfl (fun _ _ _ => rfl)
          (fun body _ => hagree body body (.refl body)) stack h
      | @block inside inside' combinator place inlines =>
        refine runFrame_cons_agree (.block inside combinator place)
          (.block inside' combinator place) hleft hright rfl rfl (fun m n h => ?_) hrest step step' h
        exact stepNode_agree_of_execute (by simp) (by simp)
          (applyBlock_agree (hagree _ _ inlines) combinator place stack h)
      | @branch consequent consequent' alternative alternative' test place inlines inlines' =>
        have hsize := Node.sizeAll_branch_append test consequent alternative [] place
        rw [runFrame_cons, runFrame_cons, stepNode_branch, stepNode_branch]
        cases selectBranch test stack with
        | error error => exact .same _ h.traced
        | ok selected =>
          obtain ⟨condition, below⟩ := selected
          have hfront := hsize condition
          simp only [List.append_nil, Node.sizeAll_cons, Node.sizeAll_nil, Nat.add_zero] at hfront
          cases condition with
          | true => exact ih consequent hfront (inlines.append others) below _ _ h.traced
          | false => exact ih alternative hfront (inlines'.append others) below _ _ h.traced
    | @replace _ rest' place others =>
      refine .trans_related ?_
        (runFrame_append halike program.nodes rest' stack step' 0 0 (.refl n))
      rw [runFrame_cons, stepNode_of_ne_branch _ _ (by simp)]
      simp only [executeNode, hcalls place, execute]
      obtain ⟨error, m', hfirst, hgave⟩ | ⟨error, n', hsecond, hgave⟩ |
        ⟨result, m', n', hfirst, hsecond, h'⟩ :=
          hcall stack _ n ((Machine.alike_traced ..).trans h)
      · exact .left (by rw [hfirst]) (hleft _ _ stack hgave)
      · exact .right (by rw [hsecond]) hgave
      · rw [hfirst, hsecond]
        cases result with
        | error error =>
          simp only [hblamed _ _ _ _ hfirst]
          exact .same _ h'
        | ok next => exact ih [] (Node.size_pos _) others next (step + 1) 0 h'

/-! ## Runs -/

/-- With bodies in place of calls a run has the same result, unless the run with the calls
    gives up. -/
theorem run_inlines
    (hcalls : setting.library.Calls name program)
    (depth : Nat) {p p' : List Node} (hinlines : Node.InlinesAll name program.nodes p p') :
    RunsAgree Error.IsTooDeep Error.none Machine.Alike (run setting depth p)
      (run setting depth p') := by
  induction depth generalizing p p' with
  | zero => exact fun _ _ _ _ => .left rfl rfl
  | succ depth ih =>
    intro stack m n h
    exact runFrame_inlines Error.isTooDeep_persists Error.none_persists hcalls
      (fun _ _ => ih) (run_agree_succ setting depth program.nodes)
      (fun _ _ _ _ => run_error_blamed) (run_alike setting depth) hinlines stack 0 0 h

/-- With calls in place of bodies a run has the same result one frame deeper, unless the
    run with the bodies gives up. -/
theorem run_succ_inlines
    (hcalls : setting.library.Calls name program)
    (depth : Nat) {p p' : List Node} (hinlines : Node.InlinesAll name program.nodes p p') :
    RunsAgree Error.none Error.IsTooDeep Machine.Alike (run setting (depth + 1) p)
      (run setting depth p') := by
  induction depth generalizing p p' with
  | zero => exact fun _ _ _ _ => .right rfl rfl
  | succ depth ih =>
    intro stack m n h
    exact runFrame_inlines Error.none_persists Error.isTooDeep_persists hcalls
      (fun _ _ => ih) (run_alike setting (depth + 1) program.nodes).agree
      (fun _ _ _ _ => run_error_blamed) (run_alike setting depth) hinlines stack 0 0 h

/-- A program ends exactly if it does with bodies in place of calls, and both end with the
    same stack or the same error, and with the same effects. -/
theorem yields_inlined (setting : Setting) (name : String) (program : Program)
    (hbound : setting.library.definitions.get? name = some program)
    (hfree : setting.library.isBuiltin name = false) (p p' : List Node)
    (hinlines : Node.InlinesAll name program.nodes p p') (stack : Stack) (m : Machine) :
    ((∃ result k, Yields setting p stack m result k)
        ↔ ∃ result k, Yields setting p' stack m result k)
      ∧ ∀ result result' k k', Yields setting p stack m result k →
          Yields setting p' stack m result' k' → result = result' ∧ Machine.Alike k k' := by
  have hcalls : setting.library.Calls name program := Library.calls_of_bound hbound hfree
  have hforth : ∀ {result k}, Yields setting p stack m result k →
      ∃ k', Yields setting p' stack m result k' ∧ Machine.Alike k k' :=
    Yields.of_agree fun depth => ⟨depth, run_inlines hcalls depth hinlines⟩
  have hback : ∀ {result k}, Yields setting p' stack m result k →
      ∃ k', Yields setting p stack m result k' ∧ Machine.Alike k k' :=
    Yields.of_agree fun depth => ⟨depth + 1, (run_succ_inlines hcalls depth hinlines).symm⟩
  refine ⟨⟨?_, ?_⟩, ?_⟩
  · rintro ⟨result, k, h⟩
    obtain ⟨k', h', -⟩ := hforth h
    exact ⟨result, k', h'⟩
  · rintro ⟨result, k, h⟩
    obtain ⟨k', h', -⟩ := hback h
    exact ⟨result, k', h'⟩
  · intro result result' k k' h h'
    obtain ⟨k'', h'', hk⟩ := hforth h
    obtain ⟨rfl, hk'⟩ := h''.unique h'
    exact ⟨rfl, hk.trans hk'⟩

/-- A definition that calls itself as long as a number is greater than the next. -/
def descent : Program := ⟨[.branch .greater [.word "descend" .unknown] [] .unknown], .empty none⟩

/-- The call of such a definition inside of a block is replaced by its body: the call that is
    left there runs the definition as before. -/
theorem yields_inlined_recursive :
    ((Library.fresh.define "descend" descent).definitions.get? "descend" = some descent
      ∧ (Library.fresh.define "descend" descent).isBuiltin "descend" = false
      ∧ Node.InlinesAll "descend" descent.nodes [.block [.word "descend" .unknown] .fold .unknown]
          [.block descent.nodes .fold .unknown])
      ∧ ∀ result result' k k',
          Yields ⟨Library.fresh.define "descend" descent, .default, 0⟩
            [.block [.word "descend" .unknown] .fold .unknown] [.number 1, .text "a"]
            (.start .fresh 0) result k →
          Yields ⟨Library.fresh.define "descend" descent, .default, 0⟩
            [.block descent.nodes .fold .unknown] [.number 1, .text "a"]
            (.start .fresh 0) result' k' →
          result = result' ∧ Machine.Alike k k' := by
  have hinlines : Node.InlinesAll "descend" descent.nodes
      [.block [.word "descend" .unknown] .fold .unknown] [.block descent.nodes .fold .unknown] :=
    .keep (.block .fold .unknown (by simpa using Node.InlinesAll.replace .unknown .nil)) .nil
  exact ⟨⟨rfl, rfl, hinlines⟩, (yields_inlined _ "descend" _ rfl rfl _ _ hinlines _ _).2⟩

end StackCalc
