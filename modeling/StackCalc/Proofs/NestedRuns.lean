/-
  StackCalc.Proofs.NestedRuns

  The runs that a single step starts in frames of their own.  A word runs the body of
  its definition.  A combinator runs its block on one item after the other, and stops
  at the first run that fails or leaves an unusable stack.  `NodeStarts` says which
  runs are started, each with its program, its stack and its machine; a run that fails
  ends the step, so there is at most one (`NodeStarts.unique`).
-/

import StackCalc.Proofs.Frame

namespace StackCalc

variable {run : Stack → Machine → Reply Stack} {m m' k : Machine}

/-! ## Maps -/

/-- A map over items in two parts maps the first part and then the second. -/
theorem mapItems_append (blame : Cause → Error) (before rest done : List Cell) (m : Machine) :
    mapItems run blame done (before ++ rest) m =
      match mapItems run blame done before m with
      | (.error error, m) => (.error error, m)
      | (.ok results, m) => mapItems run blame results rest m := by
  induction before generalizing done m with
  | nil => rfl
  | cons item before ih =>
    rw [List.cons_append, mapItems, mapItems]
    match run [item] m with
    | (.error error, k) => rfl
    | (.ok [], k) => rfl
    | (.ok [result], k) => exact ih (result :: done) k
    | (.ok (_ :: _ :: _), k) => rfl

/-- A map that fails has mapped some items, and then a run failed or did not leave
    exactly one cell. -/
theorem mapItems_error {blame : Cause → Error} {items done : List Cell} {error : Error}
    (h : mapItems run blame done items m = (.error error, m')) :
    ∃ before item after results k,
      items = before ++ item :: after
        ∧ mapItems run blame done before m = (.ok results, k)
        ∧ (run [item] k = (.error error, m')
          ∨ ∃ left, run [item] k = (.ok left, m') ∧ left.length ≠ 1
            ∧ error = blame (.mapLeft left.length)) := by
  induction items generalizing done m with
  | nil => cases h
  | cons item items ih =>
    rw [mapItems] at h
    match hitem : run [item] m with
    | (.error e, k) =>
      rw [hitem] at h
      exact ⟨[], item, items, done, m, rfl, rfl, Or.inl (hitem.trans h)⟩
    | (.ok [], k) =>
      rw [hitem] at h
      obtain ⟨rfl, rfl⟩ : blame (.mapLeft 0) = error ∧ k = m' := by simpa using h
      exact ⟨[], item, items, done, m, rfl, rfl, Or.inr ⟨_, hitem, by simp, rfl⟩⟩
    | (.ok [result], k) =>
      rw [hitem] at h
      obtain ⟨before, last, after, results, k', rfl, hbefore, hlast⟩ := ih h
      refine ⟨item :: before, last, after, results, k', rfl, ?_, hlast⟩
      rw [mapItems, hitem]
      exact hbefore
    | (.ok (first :: second :: left), k) =>
      rw [hitem] at h
      obtain ⟨rfl, rfl⟩ : blame (.mapLeft (first :: second :: left).length) = error ∧ k = m' := by
        simpa using h
      exact ⟨[], item, items, done, m, rfl, rfl, Or.inr ⟨_, hitem, by simp, rfl⟩⟩

/-! ## Accumulations -/

/-- The accumulators so far end in the present one, if there are any. -/
def EndsIn (done : List Cell) (accumulator : Cell) : Prop :=
  ∀ last ∈ done.head?, last = accumulator

theorem EndsIn.nil (accumulator : Cell) : EndsIn [] accumulator := nofun

theorem EndsIn.cons (accumulator : Cell) (done : List Cell) :
    EndsIn (accumulator :: done) accumulator := by
  intro last h
  exact (Option.some.inj h).symm

/-- An accumulation without items leaves the present accumulator on top. -/
theorem EndsIn.latest {done : List Cell} {accumulator : Cell} (hdone : EndsIn done accumulator) :
    ∃ older, (if done.isEmpty then [accumulator] else done) = accumulator :: older := by
  cases done with
  | nil => exact ⟨[], rfl⟩
  | cons last done =>
    cases hdone last rfl
    exact ⟨done, rfl⟩

/-- Behind some items an accumulation goes on with the latest accumulator. -/
theorem accumulate_append {emptied : Error} {before done : List Cell} {accumulator latest : Cell}
    {older : List Cell} (hdone : EndsIn done accumulator)
    (h : accumulate run emptied done accumulator before m = (.ok (latest :: older), k))
    (rest : List Cell) :
    ∃ results, EndsIn results latest
      ∧ accumulate run emptied done accumulator (before ++ rest) m
        = accumulate run emptied results latest rest k := by
  induction before generalizing done accumulator m with
  | nil =>
    obtain ⟨older', hlatest⟩ := hdone.latest
    rw [accumulate, hlatest] at h
    cases h
    exact ⟨done, hdone, rfl⟩
  | cons item before ih =>
    rw [accumulate] at h
    rw [List.cons_append, accumulate]
    match hitem : run [item, accumulator] m with
    | (.error e, m₁) => rw [hitem] at h; cases h
    | (.ok [], m₁) => rw [hitem] at h; cases h
    | (.ok (next :: left), m₁) =>
      rw [hitem] at h
      exact ih (EndsIn.cons next done) h

/-- An accumulation that fails has used some items, and then a run failed or left
    nothing. -/
theorem accumulate_error {emptied : Error} {items done : List Cell} {accumulator : Cell}
    {error : Error} (hdone : EndsIn done accumulator)
    (h : accumulate run emptied done accumulator items m = (.error error, m')) :
    ∃ before item after latest older k,
      items = before ++ item :: after
        ∧ accumulate run emptied done accumulator before m = (.ok (latest :: older), k)
        ∧ (run [item, latest] k = (.error error, m') ∨ error = emptied) := by
  induction items generalizing done accumulator m with
  | nil => cases h
  | cons item items ih =>
    obtain ⟨older, hlatest⟩ := hdone.latest
    have hstart : accumulate run emptied done accumulator [] m
        = (.ok (accumulator :: older), m) := by rw [accumulate, hlatest]
    rw [accumulate] at h
    match hitem : run [item, accumulator] m with
    | (.error e, k) =>
      rw [hitem] at h
      exact ⟨[], item, items, accumulator, older, m, rfl, hstart, Or.inl (hitem.trans h)⟩
    | (.ok [], k) =>
      rw [hitem] at h
      obtain ⟨rfl, -⟩ : emptied = error ∧ k = m' := by simpa using h
      exact ⟨[], item, items, accumulator, older, m, rfl, hstart, Or.inr rfl⟩
    | (.ok (next :: left), k) =>
      rw [hitem] at h
      obtain ⟨before, last, after, latest, older', k', rfl, hbefore, hlast⟩ :=
        ih (EndsIn.cons next done) h
      refine ⟨item :: before, last, after, latest, older', k', rfl, ?_, hlast⟩
      rw [accumulate, hitem]
      exact hbefore

/-! ## Blocks -/

/-- A run that a combinator starts on a stack and a machine, and the stack and machine
    that the run is started on: all runs before it were usable. -/
inductive BlockStarts (run : Stack → Machine → Reply Stack) (place : Place) :
    Combinator → Stack → Machine → Stack → Machine → Prop
  | map {stack : Stack} {m k : Machine} {before after results : List Cell} {item : Cell}
      (items : stack.reverse = before ++ item :: after)
      (usable : mapItems run (combinatorError .map place stack) [] before m = (.ok results, k)) :
      BlockStarts run place .map stack m [item] k
  | accumulate {combinator : Combinator} {rest : Stack} {m k : Machine}
      {before after older : List Cell} {seed item latest : Cell}
      (accumulates : combinator = .fold ∨ combinator = .scan)
      (items : rest.reverse = before ++ item :: after)
      (usable : accumulate run
          (combinatorError combinator place (seed :: rest) (.emptied combinator.keyword))
          [] seed before m = (.ok (latest :: older), k)) :
      BlockStarts run place combinator (seed :: rest) m [item, latest] k

variable {nested : Nested} {body : List Node} {combinator : Combinator} {place : Place}
  {stack s s' : Stack}

/-- The error of a run is the error of its block. -/
theorem applyBlock_of_starts {error : Error}
    (hstarts : BlockStarts (nested body) place combinator stack m s k)
    (hrun : nested body s k = (.error error, m')) :
    applyBlock nested body combinator place stack m = (.error error, m') := by
  cases hstarts with
  | map items usable =>
    rw [applyBlock, items, mapItems_append, usable]
    dsimp only
    rw [mapItems, hrun]
  | @accumulate _ rest _ _ before after _ seed item latest accumulates items usable =>
    obtain ⟨results, -, hrest⟩ := accumulate_append (EndsIn.nil seed) usable (item :: after)
    have hall : accumulateStack nested body combinator place (seed :: rest) m
        = (.error error, m') := by
      rw [accumulateStack, items, hrest, accumulate, hrun]
    obtain rfl | rfl := accumulates
    · rw [applyBlock, hall]
    · cases rest with
      | nil => simp at items
      | cons second rest => exact hall

/-- A block that ends with an error is to blame itself, but for no fault of its text, or one of
    its runs is, or it has no combinator that is known. -/
theorem applyBlock_error {error : Error}
    (h : applyBlock nested body combinator place stack m = (.error error, m')) :
    (∃ s k, BlockStarts (nested body) place combinator stack m s k
        ∧ nested body s k = (.error error, m'))
      ∨ (∃ cause, (∀ fault, cause ≠ .source fault)
        ∧ error = combinatorError combinator place stack cause)
      ∨ ∃ keyword, combinator = .unknown keyword ∧ error = .fault (.unknownKeyword keyword) := by
  have hall : ∀ {combinator}, combinator = .fold ∨ combinator = .scan →
      accumulateStack nested body combinator place stack m = (.error error, m') →
      (∃ s k, BlockStarts (nested body) place combinator stack m s k
        ∧ nested body s k = (.error error, m'))
      ∨ (∃ cause, (∀ fault, cause ≠ .source fault)
        ∧ error = combinatorError combinator place stack cause)
      ∨ ∃ keyword, combinator = .unknown keyword ∧ error = .fault (.unknownKeyword keyword) := by
    intro combinator haccumulates hstack
    cases stack with
    | nil =>
      rw [accumulateStack] at hstack
      cases hstack
      exact Or.inr (Or.inl ⟨.noSeed _, nofun, rfl⟩)
    | cons seed rest =>
      obtain ⟨before, item, after, latest, older, k, hitems, husable, hrun | hemptied⟩ :=
        accumulate_error (EndsIn.nil seed) hstack
      · exact Or.inl ⟨_, k, .accumulate haccumulates hitems husable, hrun⟩
      · exact Or.inr (Or.inl ⟨.emptied _, nofun, hemptied⟩)
  cases combinator with
  | map =>
    obtain ⟨before, item, after, results, k, hitems, husable, hrun | ⟨left, -, -, hleft⟩⟩ :=
      mapItems_error h
    · exact Or.inl ⟨_, k, .map hitems husable, hrun⟩
    · exact Or.inr (Or.inl ⟨.mapLeft _, nofun, hleft⟩)
  | fold =>
    rw [applyBlock] at h
    refine hall (Or.inl rfl) ?_
    cases hstack : accumulateStack nested body .fold place stack m with
    | mk outcome k =>
      rw [hstack] at h
      cases outcome with
      | error error => exact h
      | ok results => cases h
  | scan =>
    refine hall (Or.inr rfl) ?_
    match stack with
    | [] => exact h
    | [_] => cases h
    | _ :: _ :: _ => exact h
  | unknown keyword =>
    cases h
    exact Or.inr (Or.inr ⟨keyword, rfl, rfl⟩)

/-- A block that fails is to blame itself, or one of its runs failed. -/
theorem applyBlock_failure {failure : Failure}
    (h : applyBlock nested body combinator place stack m = (.error (.failure failure), m')) :
    (∃ s k, BlockStarts (nested body) place combinator stack m s k
        ∧ nested body s k = (.error (.failure failure), m'))
      ∨ ∃ cause, (∀ fault, cause ≠ .source fault)
        ∧ Error.failure failure = combinatorError combinator place stack cause := by
  obtain hrun | hcause | ⟨keyword, -, hunknown⟩ := applyBlock_error h
  · exact Or.inl hrun
  · exact Or.inr hcause
  · cases hunknown

/-- Of two ways to cut a list at an item, one is in front of the other or they are the
    same. -/
theorem cut_cases {α : Type} {before before' after after' : List α} {item item' : α}
    (h : before ++ item :: after = before' ++ item' :: after') :
    (before = before' ∧ item = item')
      ∨ (∃ more, before' = before ++ item :: more)
      ∨ ∃ more, before = before' ++ item' :: more := by
  obtain ⟨more, rfl, hmore⟩ | ⟨more, rfl, hmore⟩ := List.append_eq_append_iff.mp h
  · cases more with
    | nil =>
      simp only [List.nil_append, List.cons.injEq] at hmore
      exact Or.inl ⟨by simp, hmore.1⟩
    | cons first more =>
      simp only [List.cons_append, List.cons.injEq] at hmore
      exact Or.inr (Or.inl ⟨more, by rw [hmore.1]⟩)
  · cases more with
    | nil =>
      simp only [List.nil_append, List.cons.injEq] at hmore
      exact Or.inl ⟨by simp, hmore.1.symm⟩
    | cons first more =>
      simp only [List.cons_append, List.cons.injEq] at hmore
      exact Or.inr (Or.inr ⟨more, by rw [hmore.1]⟩)

/-- A block has at most one run that fails. -/
theorem BlockStarts.unique {error error' : Error} {k' k₁ k₁' : Machine}
    (h : BlockStarts run place combinator stack m s k)
    (h' : BlockStarts run place combinator stack m s' k')
    (hrun : run s k = (.error error, k₁)) (hrun' : run s' k' = (.error error', k₁')) :
    s = s' ∧ k = k' := by
  cases h with
  | map items usable =>
    cases h' with
    | map items' usable' =>
      obtain ⟨rfl, rfl⟩ | ⟨more, rfl⟩ | ⟨more, rfl⟩ := cut_cases (items.symm.trans items')
      · rw [usable] at usable'
        cases usable'
        exact ⟨rfl, rfl⟩
      · rw [mapItems_append, usable] at usable'
        simp only [mapItems, hrun] at usable'
        cases usable'
      · rw [mapItems_append, usable'] at usable
        simp only [mapItems, hrun'] at usable
        cases usable
    | accumulate accumulates => simp at accumulates
  | @accumulate _ _ _ _ _ _ _ seed _ _ accumulates items usable =>
    cases h' with
    | map => simp at accumulates
    | accumulate _ items' usable' =>
      obtain ⟨rfl, rfl⟩ | ⟨more, rfl⟩ | ⟨more, rfl⟩ := cut_cases (items.symm.trans items')
      · rw [usable] at usable'
        cases usable'
        exact ⟨rfl, rfl⟩
      · obtain ⟨_, -, hrest⟩ := accumulate_append (EndsIn.nil seed) usable (_ :: more)
        rw [hrest, StackCalc.accumulate, hrun] at usable'
        cases usable'
      · obtain ⟨_, -, hrest⟩ := accumulate_append (EndsIn.nil seed) usable' (_ :: more)
        rw [hrest, StackCalc.accumulate, hrun'] at usable
        cases usable

/-! ## Nodes -/

/-- A run that a node starts on a stack and a machine: the program, the stack and the
    machine of the run. -/
inductive NodeStarts (setting : Setting) (nested : Nested) :
    Node → Stack → Machine → List Node → Stack → Machine → Prop
  | call {name called : String} {place : Place} {program : Program} {stack : Stack} {m : Machine}
      (resolved :
        setting.library.resolve name (some place) = .ok ⟨called, .definition program⟩) :
      NodeStarts setting nested (.word name place) stack m program.nodes stack m
  | block {body : List Node} {combinator : Combinator} {place : Place} {stack s : Stack}
      {m k : Machine} (starts : BlockStarts (nested body) place combinator stack m s k) :
      NodeStarts setting nested (.block body combinator place) stack m body s k

variable {setting : Setting} {node : Node} {body' : List Node}

/-- The error of a run is the error of the step that started it. -/
theorem stepNode_of_starts {error : Error}
    (hstarts : NodeStarts setting nested node stack m body s k)
    (hrun : nested body s k = (.error error, m')) :
    stepNode setting nested node stack m = (.error error, m') := by
  cases hstarts with
  | call resolved =>
    simp only [stepNode, executeNode, resolved, execute, hrun]
  | block starts =>
    simp only [stepNode, executeNode, applyBlock_of_starts starts hrun]

/-- A step starts at most one run that fails. -/
theorem NodeStarts.unique {error error' : Error} {k' k₁ k₁' : Machine}
    (h : NodeStarts setting nested node stack m body s k)
    (h' : NodeStarts setting nested node stack m body' s' k')
    (hrun : nested body s k = (.error error, k₁))
    (hrun' : nested body' s' k' = (.error error', k₁')) :
    body = body' ∧ s = s' ∧ k = k' := by
  cases h with
  | call resolved =>
    cases h' with
    | call resolved' =>
      rw [resolved] at resolved'
      cases resolved'
      exact ⟨rfl, rfl, rfl⟩
  | block starts =>
    cases h' with
    | block starts' =>
      obtain ⟨rfl, rfl⟩ := starts.unique starts' hrun hrun'
      exact ⟨rfl, rfl, rfl⟩

end StackCalc
