/-
  StackCalc.Proofs.Mapping

  The map over a stack.  `MapsTo` is the relation that a map computes: the block is run on
  one cell after the other, bottom first, each alone on a stack and on the machine that
  the run before it left, and each run leaves exactly one cell.  A map succeeds exactly if
  the whole stack is mapped in this way (`mapItems_ok_iff`), and it fails exactly because of
  the first cell for which the block fails or leaves none or several (`mapItems_error_iff`).
-/

import StackCalc.Proofs.Dependence

namespace StackCalc

variable {run : Stack → Machine → Reply Stack} {m m' k : Machine}

/-- Runs on cells, one after the other, leave cells, one for each. -/
inductive MapsTo (run : Stack → Machine → Reply Stack) :
    List Cell → Machine → List Cell → Machine → Prop
  | nil (m : Machine) : MapsTo run [] m [] m
  | cons {item result : Cell} {items results : List Cell} {m k m' : Machine}
      (one : run [item] m = (.ok [result], k)) (others : MapsTo run items k results m') :
      MapsTo run (item :: items) m (result :: results) m'

theorem MapsTo.length_eq {items results : List Cell} (h : MapsTo run items m results m') :
    results.length = items.length := by
  induction h with
  | nil m => rfl
  | cons _ _ ih => rw [List.length_cons, List.length_cons, ih]

/-! ## The loop -/

/-- A map succeeds exactly if its items are mapped; the results are kept last first. -/
theorem mapItems_ok_iff {blame : Cause → Error} {items done result : List Cell} :
    mapItems run blame done items m = (.ok result, m')
      ↔ ∃ results, MapsTo run items m results m' ∧ result = results.reverse ++ done := by
  constructor
  · intro h
    induction items generalizing done m with
    | nil =>
      cases h
      exact ⟨[], .nil _, rfl⟩
    | cons item items ih =>
      rw [mapItems] at h
      obtain ⟨reply, k, hitem⟩ : ∃ reply k, run [item] m = (reply, k) := ⟨_, _, rfl⟩
      rw [hitem] at h
      cases reply with
      | error error => cases h
      | ok left =>
        -- Only a run that leaves exactly one cell lets the map go on.
        obtain _ | ⟨first, _ | ⟨second, more⟩⟩ := left
        · cases h
        · obtain ⟨results, hresults, rfl⟩ := ih h
          exact ⟨first :: results, .cons hitem hresults, by simp⟩
        · cases h
  · rintro ⟨results, hmaps, rfl⟩
    induction hmaps generalizing done with
    | nil m => rfl
    | @cons item first items results m k m' one _ ih =>
      have hrest : mapItems run blame (first :: done) items k
          = (.ok (results.reverse ++ first :: done), m') := ih
      rw [mapItems, one, List.reverse_cons, List.append_assoc]
      exact hrest

/-- A map fails exactly if it comes to an item for which the run fails, or does not leave
    exactly one cell. -/
theorem mapItems_error_iff {blame : Cause → Error} {items done : List Cell} {error : Error} :
    mapItems run blame done items m = (.error error, m')
      ↔ ∃ before item after results k,
          items = before ++ item :: after
            ∧ MapsTo run before m results k
            ∧ (run [item] k = (.error error, m')
              ∨ ∃ left, run [item] k = (.ok left, m') ∧ left.length ≠ 1
                ∧ error = blame (.mapLeft left.length)) := by
  constructor
  · intro h
    obtain ⟨before, item, after, done', k, hitems, hbefore, hitem⟩ := mapItems_error h
    obtain ⟨results, hresults, -⟩ := mapItems_ok_iff.mp hbefore
    exact ⟨before, item, after, results, k, hitems, hresults, hitem⟩
  · rintro ⟨before, item, after, results, k, rfl, hmaps, hitem⟩
    have hbefore : mapItems run blame done before m = (.ok (results.reverse ++ done), k) :=
      mapItems_ok_iff.mpr ⟨results, hmaps, rfl⟩
    rw [mapItems_append, hbefore]
    dsimp only
    rw [mapItems]
    obtain hfails | ⟨left, hleft, hcount, rfl⟩ := hitem
    · rw [hfails]
    · rw [hleft]
      obtain _ | ⟨first, _ | ⟨second, more⟩⟩ := left
      · rfl
      · exact absurd rfl hcount
      · rfl

/-! ## The combinator -/

/-- The map of a stack is the effectful map of its cells, bottom first.  It succeeds exactly if
    every cell is mapped to one cell by a run on the machine that the run before it left, and
    the results stand in the order of the cells.  It fails exactly because of the first cell
    that is not: with the error of that run, or with its own error, which has the whole stack
    that the map was given; nothing is run behind it.  Of the machine only the memory and the
    random numbers matter, for each run of the block as for the map as a whole. -/
theorem map_in_order (setting : Setting) (depth : Nat) (body : List Node) (place : Place)
    (stack : Stack) (m : Machine) :
    (∀ result m', applyBlock (StackCalc.run setting depth) body .map place stack m
          = (.ok result, m')
        ↔ ∃ results, results.length = stack.length
          ∧ MapsTo (StackCalc.run setting depth body) stack.reverse m results m'
          ∧ result = results.reverse)
      ∧ (∀ error m', applyBlock (StackCalc.run setting depth) body .map place stack m
          = (.error error, m')
        ↔ ∃ before item after results k,
            stack.reverse = before ++ item :: after
              ∧ MapsTo (StackCalc.run setting depth body) before m results k
              ∧ (StackCalc.run setting depth body [item] k = (.error error, m')
                ∨ ∃ left, StackCalc.run setting depth body [item] k = (.ok left, m')
                  ∧ left.length ≠ 1
                  ∧ error = .failure ⟨.mapLeft left.length, some "map", some place, some stack⟩))
      ∧ RunsAlike Machine.SameState (StackCalc.run setting depth body)
          (StackCalc.run setting depth body)
      ∧ RunsAlike Machine.SameState (applyBlock (StackCalc.run setting depth) body .map place)
          (applyBlock (StackCalc.run setting depth) body .map place) := by
  have halike := run_sameState setting depth body
  refine ⟨fun result m' => ?_, fun error m' => mapItems_error_iff, halike, ?_⟩
  · rw [applyBlock, mapItems_ok_iff]
    constructor
    · rintro ⟨results, hmaps, rfl⟩
      have hlength := hmaps.length_eq
      rw [List.length_reverse] at hlength
      exact ⟨results, hlength, hmaps, List.append_nil _⟩
    · rintro ⟨results, -, hmaps, rfl⟩
      exact ⟨results, hmaps, (List.append_nil _).symm⟩
  · intro stack m n h
    exact (applyBlock_agree halike.agree .map place stack h).related

end StackCalc
