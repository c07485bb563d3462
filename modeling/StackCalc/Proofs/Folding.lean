/-
  StackCalc.Proofs.Folding

  Folds and scans.  Both run their block on an accumulator and one cell after the other, and
  keep the top of what each run leaves: `Accumulates` is the relation between the cells and
  the accumulators.  An accumulation comes to the same whatever its own error is and whatever
  was accumulated before (`accumulate_cases`), so a fold and a scan of one stack succeed or
  fail together (`fold_likeScan`), and a fold of cells in two parts is the fold of the
  first part and then, from its result, the fold of the second (`fold_inTurn`).
-/

import StackCalc.Proofs.NestedRuns

namespace StackCalc

variable {run : Stack → Machine → Reply Stack} {m k m' : Machine}

/-! ## Accumulators -/

/-- Runs on an accumulator and cells, one after the other, each on the machine that the run
    before it left: the top of what a run leaves is the next accumulator. -/
inductive Accumulates (run : Stack → Machine → Reply Stack) :
    Cell → List Cell → Machine → List Cell → Machine → Prop
  | nil (seed : Cell) (m : Machine) : Accumulates run seed [] m [] m
  | cons {seed item next : Cell} {left : Stack} {items results : List Cell} {m k m' : Machine}
      (one : run [item, seed] m = (.ok (next :: left), k))
      (others : Accumulates run next items k results m') :
      Accumulates run seed (item :: items) m (next :: results) m'

theorem Accumulates.length_eq {seed : Cell} {items results : List Cell}
    (h : Accumulates run seed items m results m') : results.length = items.length := by
  induction h with
  | nil seed m => rfl
  | cons _ _ ih => rw [List.length_cons, List.length_cons, ih]

/-- The accumulators so far, last first, or the seed if there is none yet. -/
def accumulators (seed : Cell) (done : List Cell) : List Cell :=
  if done.isEmpty then [seed] else done

theorem accumulators_of_ne_nil {seed : Cell} {done : List Cell} (h : done ≠ []) :
    accumulators seed done = done := by
  rw [accumulators, if_neg (by simpa using h)]

theorem exists_accumulators (seed : Cell) (done : List Cell) :
    ∃ latest older, accumulators seed done = latest :: older := by
  cases done with
  | nil => exact ⟨seed, [], rfl⟩
  | cons latest older => exact ⟨latest, older, rfl⟩

/-- The last accumulator is the same whether the accumulators before the seed are known or not. -/
theorem take_one_accumulators {seed : Cell} {done : List Cell} (h : EndsIn done seed)
    (results : List Cell) :
    (accumulators seed (results ++ done)).take 1 = (accumulators seed results).take 1 := by
  cases results with
  | nil =>
    obtain ⟨older, hlatest⟩ := h.latest
    rw [List.nil_append, accumulators, hlatest]
    rfl
  | cons latest older => rfl

/-! ## The loop -/

/-- What an accumulation comes to, apart from its own error and the accumulators before it: it
    succeeds with all accumulators, a run fails, or a run leaves nothing. -/
theorem accumulate_cases (run : Stack → Machine → Reply Stack) (seed : Cell) (items : List Cell)
    (m : Machine) :
    (∃ results m', Accumulates run seed items m results m'
        ∧ ∀ emptied done, accumulate run emptied done seed items m
          = (.ok (accumulators seed (results.reverse ++ done)), m'))
      ∨ (∃ error m', ∀ emptied done,
          accumulate run emptied done seed items m = (.error error, m'))
      ∨ ∃ m', ∀ emptied done,
          accumulate run emptied done seed items m = (.error emptied, m') := by
  -- On the cells that are left; the seed is the accumulator that the runs so far left.
  induction items generalizing seed m with
  | nil => exact Or.inl ⟨[], m, .nil seed m, fun _ _ => rfl⟩
  | cons item items ih =>
    simp only [accumulate]
    rcases hitem : run [item, seed] m with ⟨error | _ | ⟨next, left⟩, k⟩
    · exact Or.inr (Or.inl ⟨error, k, fun _ _ => rfl⟩)
    · exact Or.inr (Or.inr ⟨k, fun _ _ => rfl⟩)
    · obtain ⟨results, m', hresults, hrest⟩ | ⟨error, m', hrest⟩ | ⟨m', hrest⟩ := ih next k
      · refine Or.inl ⟨next :: results, m', .cons hitem hresults, fun emptied done => ?_⟩
        have hne : results.reverse ++ next :: done ≠ [] := by simp
        have hdone := hrest emptied (next :: done)
        rw [accumulators_of_ne_nil hne] at hdone
        rw [List.reverse_cons, List.append_assoc]
        exact hdone.trans (by rw [List.singleton_append, accumulators_of_ne_nil hne])
      · exact Or.inr (Or.inl ⟨error, m', fun emptied done => hrest emptied (next :: done)⟩)
      · exact Or.inr (Or.inr ⟨m', fun emptied done => hrest emptied (next :: done)⟩)

/-- An accumulation that fails does so whatever cells are behind. -/
theorem accumulate_append_error {emptied error : Error} {done before : List Cell} {seed : Cell}
    (h : accumulate run emptied done seed before m = (.error error, m')) (after : List Cell) :
    accumulate run emptied done seed (before ++ after) m = (.error error, m') := by
  induction before generalizing seed done m with
  | nil => cases h
  | cons item before ih =>
    rw [accumulate] at h
    rw [List.cons_append, accumulate]
    rcases hitem : run [item, seed] m with ⟨_ | _ | ⟨next, left⟩, k⟩
    · rwa [hitem] at h
    · rwa [hitem] at h
    · rw [hitem] at h
      exact ih h

/-- Where every run of the block computes a function of values, so does the accumulation. -/
theorem accumulate_foldl {α : Type} {cell : α → Cell} {f : α → α → α}
    (hrun : ∀ item seed m, (run [cell item, cell seed] m).1 = .ok [cell (f seed item)])
    {emptied : Error} {done : List Cell} {seed : α} (hdone : EndsIn done (cell seed))
    (items : List α) (m : Machine) :
    ∃ older m', accumulate run emptied done (cell seed) (items.map cell) m
      = (.ok (cell (items.foldl f seed) :: older), m') := by
  induction items generalizing seed done m with
  | nil =>
    obtain ⟨older, hlatest⟩ := hdone.latest
    exact ⟨older, m, by rw [List.map_nil, accumulate, hlatest, List.foldl_nil]⟩
  | cons item items ih =>
    rw [List.map_cons, accumulate, List.foldl_cons]
    rcases hitem : run [cell item, cell seed] m with ⟨reply, k⟩
    obtain rfl : reply = .ok [cell (f seed item)] := by
      rw [← hrun item seed m, hitem]
    exact ih (EndsIn.cons _ done) k

/-! ## Errors -/

/-- The class of an error. -/
def Error.label : Error → String
  | failure x => x.cause.category.label
  | fault x => x.label

/-- The errors of two blocks with one body: the same error of one of their runs, or that a run
    left nothing, which each of them has with its own combinator and its own stack. -/
def SameTrouble (place : Place) (combinator combinator' : Combinator) (stack stack' : Stack)
    (error error' : Error) : Prop :=
  error = error'
    ∨ (error = combinatorError combinator place stack (.emptied combinator.keyword)
      ∧ error' = combinatorError combinator' place stack' (.emptied combinator'.keyword))

/-! ## Folds and scans -/

section

variable (nested : Nested) (body : List Node) (place : Place) (seed : Cell) (m : Machine)

/-- A fold of a seed and cells, the bottom one first. -/
theorem applyBlock_fold (items : List Cell) :
    applyBlock nested body .fold place (seed :: items.reverse) m
      = match accumulate (nested body)
          (combinatorError .fold place (seed :: items.reverse) (.emptied "fold")) [] seed items m with
        | (.ok results, m) => (.ok (results.take 1), m)
        | (.error error, m) => (.error error, m) := by
  rw [applyBlock, accumulateStack, List.reverse_reverse]
  rfl

/-- A fold with a block that computes a function of values is that of the values. -/
theorem applyBlock_foldl {α : Type} {cell : α → Cell} {f : α → α → α}
    (hbody : ∀ item seed m, (nested body [cell item, cell seed] m).1 = .ok [cell (f seed item)])
    (seed : α) (items : List α) :
    (applyBlock nested body .fold place ((seed :: items.reverse).map cell) m).1
      = .ok [cell (items.foldl f seed)] := by
  rw [List.map_cons, List.map_reverse, applyBlock_fold]
  obtain ⟨older, m', hfolded⟩ := accumulate_foldl hbody (EndsIn.nil (cell seed)) items m
  rw [hfolded]
  rfl

/-- A scan of a seed and cells, the bottom one first. -/
theorem applyBlock_scan (item : Cell) (items : List Cell) :
    applyBlock nested body .scan place (seed :: (item :: items).reverse) m
      = accumulate (nested body)
          (combinatorError .scan place (seed :: (item :: items).reverse) (.emptied "scan")) []
          seed (item :: items) m := by
  have hstack : ∀ first rest,
      applyBlock nested body .scan place (seed :: first :: rest) m
        = accumulateStack nested body .scan place (seed :: first :: rest) m := fun _ _ => rfl
  obtain ⟨first, rest, hcells⟩ := List.exists_cons_of_ne_nil
    (show (item :: items).reverse ≠ [] by simp)
  rw [hcells, hstack, ← hcells, accumulateStack, List.reverse_reverse]
  rfl

/-- How a fold and a scan of one stack compare that holds more than its seed.  They succeed
    together, the scan with an accumulator for every cell and the fold with the last of them; or
    they fail together, with errors of one class.  Both leave the same machine. -/
def FoldsLikeScan (item : Cell) (items : List Cell) : Prop :=
  (∃ results latest older m', Accumulates (nested body) seed (item :: items) m results m'
      ∧ results.reverse = latest :: older ∧ older.length = items.length
      ∧ applyBlock nested body .fold place (seed :: (item :: items).reverse) m
        = (.ok [latest], m')
      ∧ applyBlock nested body .scan place (seed :: (item :: items).reverse) m
        = (.ok (latest :: older), m'))
    ∨ ∃ error error' m',
      applyBlock nested body .fold place (seed :: (item :: items).reverse) m = (.error error, m')
      ∧ applyBlock nested body .scan place (seed :: (item :: items).reverse) m
        = (.error error', m')
      ∧ error.label = error'.label
      ∧ SameTrouble place .fold .scan (seed :: (item :: items).reverse)
          (seed :: (item :: items).reverse) error error'

theorem fold_likeScan (item : Cell) (items : List Cell) :
    FoldsLikeScan nested body place seed m item items := by
  rw [FoldsLikeScan, applyBlock_fold, applyBlock_scan]
  obtain ⟨results, m', hresults, hall⟩ | ⟨error, m', hall⟩ | ⟨m', hall⟩ :=
    accumulate_cases (nested body) seed (item :: items) m
  · -- There is an accumulator for every cell, so at least one.
    have hlength := hresults.length_eq
    rw [← List.length_reverse] at hlength
    obtain ⟨latest, older, hlatest⟩ := List.exists_cons_of_length_eq_add_one hlength
    rw [hlatest, List.length_cons, List.length_cons, Nat.add_right_cancel_iff] at hlength
    have hok : ∀ emptied, accumulate (nested body) emptied [] seed (item :: items) m
        = (.ok (latest :: older), m') := by
      intro emptied
      rw [hall, List.append_nil, hlatest]
      rfl
    rw [hok, hok]
    exact Or.inl ⟨results, latest, older, m', hresults, hlatest, hlength, rfl, rfl⟩
  · rw [hall, hall]
    exact Or.inr ⟨error, error, m', rfl, rfl, rfl, Or.inl rfl⟩
  · rw [hall, hall]
    exact Or.inr ⟨_, _, m', rfl, rfl, rfl, Or.inr ⟨rfl, rfl⟩⟩

/-- What a fold of cells in two parts comes to, given a fold of the first part and how the second
    part is folded from a seed: it fails like the first fold, or has the outcome of the second
    fold from the result of the first one. -/
def FoldsInTurn (before after : List Cell) : Prop :=
  match applyBlock nested body .fold place (seed :: before.reverse) m with
  | (.error error, k) =>
    ∃ error', applyBlock nested body .fold place (seed :: (before ++ after).reverse) m
        = (.error error', k)
      ∧ SameTrouble place .fold .fold (seed :: before.reverse) (seed :: (before ++ after).reverse)
          error error'
  | (.ok left, k) =>
    ∃ latest, left = [latest]
      ∧ match applyBlock nested body .fold place (latest :: after.reverse) k with
        | (.error error, k') =>
          ∃ error', applyBlock nested body .fold place (seed :: (before ++ after).reverse) m
              = (.error error', k')
            ∧ SameTrouble place .fold .fold (latest :: after.reverse)
                (seed :: (before ++ after).reverse) error error'
        | (.ok result, k') =>
          applyBlock nested body .fold place (seed :: (before ++ after).reverse) m
            = (.ok result, k')

/-- Cells can be folded in two parts, the second part from the result of the first. -/
theorem fold_inTurn (before after : List Cell) :
    FoldsInTurn nested body place seed m before after := by
  simp only [FoldsInTurn, applyBlock_fold]
  obtain ⟨results, k, -, hbefore⟩ | ⟨error, k, hbefore⟩ | ⟨k, hbefore⟩ :=
    accumulate_cases (nested body) seed before m
  · -- Behind the first part the accumulation goes on with the latest accumulator.
    obtain ⟨latest, older, hlatest⟩ := exists_accumulators seed (results.reverse ++ [])
    have hfirst : ∀ emptied, accumulate (nested body) emptied [] seed before m
        = (.ok (latest :: older), k) := by
      intro emptied
      rw [hbefore, hlatest]
    have hwhole : ∀ emptied, ∃ done, EndsIn done latest
        ∧ accumulate (nested body) emptied [] seed (before ++ after) m
          = accumulate (nested body) emptied done latest after k :=
      fun emptied => accumulate_append (EndsIn.nil seed) (hfirst emptied) after
    obtain ⟨done, hdone, hgoesOn⟩ := hwhole
      (combinatorError .fold place (seed :: (before ++ after).reverse) (.emptied "fold"))
    rw [hfirst, hgoesOn]
    refine ⟨latest, rfl, ?_⟩
    obtain ⟨more, k', -, hafter⟩ | ⟨error, k', hafter⟩ | ⟨k', hafter⟩ :=
      accumulate_cases (nested body) latest after k
    · rw [hafter, hafter, List.append_nil]
      dsimp only
      rw [take_one_accumulators hdone]
    · rw [hafter, hafter]
      exact ⟨error, rfl, Or.inl rfl⟩
    · rw [hafter, hafter]
      exact ⟨_, rfl, Or.inr ⟨rfl, rfl⟩⟩
  · rw [hbefore, accumulate_append_error (hbefore _ _)]
    exact ⟨error, rfl, Or.inl rfl⟩
  · rw [hbefore, accumulate_append_error (hbefore _ _)]
    exact ⟨_, rfl, Or.inr ⟨rfl, rfl⟩⟩

end

/-- A fold and a scan agree on every stack that holds more than its seed: they succeed together,
    the scan with a cell for every cell and the fold with the one on top of these, or they fail
    together, with errors of one class, and both leave the same machine.  Cells are folded from
    a seed like the first of them from the seed and then the others from the result: with the
    same result, or with the same error, but for the stack that an error of the fold itself has,
    and with the same machine. -/
theorem fold_agrees_scan_and_splits (setting : Setting) (depth : Nat) (body : List Node)
    (place : Place) (seed : Cell) (m : Machine) :
    (∀ item items,
        FoldsLikeScan (StackCalc.run setting depth) body place seed m item items)
      ∧ ∀ before after,
        FoldsInTurn (StackCalc.run setting depth) body place seed m before after :=
  ⟨fold_likeScan (StackCalc.run setting depth) body place seed m,
    fold_inTurn (StackCalc.run setting depth) body place seed m⟩

end StackCalc
