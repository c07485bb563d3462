/-
  StackCalc.Proofs.FileWrites

  A text that was written to a path is what the path leads to from then on: no
  directory goes missing by it, so that the same steps lead to the same place.
-/

import StackCalc.Files
import StackCalc.Proofs.Paths

namespace StackCalc
namespace Files

open FilePath

variable {files : Files} {path content step : String} {here place steps : List String}

/-! ## Places -/

theorem isPlace_nil : IsPlace [] := ⟨[], by simp, .inl rfl⟩

theorem isPlace_append {tail : List String} (h : IsPlace here)
    (valid : ∀ step ∈ tail, IsStep step) : IsPlace (here ++ tail) := by
  obtain ⟨rest, all, rfl | rfl⟩ := h
  · exact ⟨here ++ tail, List.forall_mem_append.2 ⟨all, valid⟩, .inl rfl⟩
  · exact ⟨rest ++ tail, List.forall_mem_append.2 ⟨all, valid⟩, .inr rfl⟩

theorem isStep_up : IsStep ".." := ⟨⟨by decide, by decide⟩, by decide⟩

theorem isPlace_above (h : IsPlace here) : IsPlace (above here) := by
  have up : ∀ step ∈ [".."], IsStep step := by simpa using isStep_up
  unfold above
  split
  · exact isPlace_append isPlace_nil up
  · exact isPlace_append h up
  · exact h
  · rename_i last up root found
    obtain ⟨rest, all, rfl | rfl⟩ := h
    · exact ⟨_, fun step found => all step (List.dropLast_subset _ found), .inl rfl⟩
    · have some : rest ≠ [] := by
        rintro rfl
        cases found
        contradiction
      exact ⟨rest.dropLast, fun step found => all step (List.dropLast_subset _ found),
        .inr (List.dropLast_cons_of_ne_nil some)⟩

theorem isPlace_behind (h : IsPlace here) (part : IsPart step) : IsPlace (behind here step) := by
  unfold behind
  split
  · exact h
  · exact isPlace_above h
  · rename_i other up
    exact isPlace_append h (by simpa using ⟨part, other⟩)

theorem follow_cons_ok (led : files.follow here (step :: steps) = .ok place) :
    files.at? here = some .directory ∧ ¬stepByteLimit < step.utf8ByteSize ∧
      files.follow (behind here step) steps = .ok place := by
  rw [follow] at led
  split at led
  · rename_i directory
    split at led
    · cases led
    · rename_i short
      exact ⟨directory, short, led⟩
  · cases led
  · cases led

theorem isPlace_follow (h : IsPlace here) (parts : ∀ step ∈ steps, IsPart step)
    (led : files.follow here steps = .ok place) : IsPlace place := by
  induction steps generalizing here with
  | nil =>
    cases led
    exact h
  | cons step steps ih =>
    obtain ⟨-, -, led⟩ := follow_cons_ok led
    exact ih (isPlace_behind h (parts step List.mem_cons_self))
      (fun step found => parts step (List.mem_cons_of_mem _ found)) led

/-- A path that leads to a place is followed step by step, whatever the files are. -/
theorem resolve_eq_follow (led : files.resolve path = .ok place) (other : Files) :
    other.resolve path = other.follow [] (walk path) := by
  unfold resolve at led ⊢
  by_cases null : holdsNull path
  · rw [if_pos null] at led
    cases led
  by_cases long : byteLimit ≤ path.utf8ByteSize
  · rw [if_neg null, if_pos long] at led
    cases led
  by_cases empty : path.isEmpty
  · rw [if_neg null, if_neg long, if_pos empty] at led
    cases led
  rw [if_neg null, if_neg long, if_neg empty]

/-- A path leads to a place. -/
theorem isPlace_resolve (led : files.resolve path = .ok place) : IsPlace place := by
  have parts : ∀ step ∈ split path ++ if path.toList.getLast? = some '/' then ["."] else [],
      IsPart step := by
    refine List.forall_mem_append.2 ⟨fun _ => isPart_of_mem_split, ?_⟩
    split
    · simp [IsPart]
    · simp
  rw [resolve_eq_follow led files] at led
  unfold walk anchored at led
  split at led
  · exact isPlace_follow isPlace_nil parts led
  · obtain ⟨-, -, led⟩ := follow_cons_ok led
    exact isPlace_follow ⟨[], by simp, .inr rfl⟩ parts led

/-! ## Writing -/

/-- The files with a text at a place. -/
def put (files : Files) (place : List String) (content : String) : Files :=
  ⟨files.entries.filter (fun entry => FilePath.steps entry.1 ≠ place)
    ++ [(ofSteps place, .text content)]⟩

/-- A text can be written where a path leads to, if that is no directory. -/
theorem write_eq (led : files.resolve path = .ok place) (free : files.at? place ≠ some .directory)
    (content : String) : files.write path content = .ok (files.put place content) := by
  rw [write, led]
  dsimp only
  split
  · contradiction
  · rfl

/-- A text that can be written is written to a place that is no directory. -/
theorem place_of_write {written : Files} (h : files.write path content = .ok written) :
    ∃ place, files.resolve path = .ok place ∧ files.at? place ≠ some .directory := by
  unfold write at h
  split at h
  · cases h
  · rename_i place led
    refine ⟨place, led, fun directory => ?_⟩
    rw [directory] at h
    cases h

theorem at?_put (valid : IsPlace place) (free : files.at? place ≠ some .directory)
    (content : String) : (files.put place content).at? place = some (.text content) := by
  have ordinary : ¬(place = ["/"] || place.all (· = "..")) := fun always => free (if_pos always)
  have others : (files.entries.filter fun entry => FilePath.steps entry.1 ≠ place).find?
      (fun entry => FilePath.steps entry.1 = place) = none := by
    simp
  have found : (files.put place content).entries.find? (fun entry => FilePath.steps entry.1 = place)
      = some (ofSteps place, .text content) := by
    rw [put, List.find?_append, others, Option.none_or, List.find?_cons]
    simp [steps_ofSteps valid]
  rw [at?, if_neg ordinary, found]

theorem find?_put (valid : IsPlace place) (apart : here ≠ place) :
    (files.put place content).entries.find? (fun entry => FilePath.steps entry.1 = here)
      = files.entries.find? fun entry => FilePath.steps entry.1 = here := by
  have others : (files.entries.filter fun entry => FilePath.steps entry.1 ≠ place).find?
      (fun entry => FilePath.steps entry.1 = here)
        = files.entries.find? fun entry => FilePath.steps entry.1 = here := by
    rw [List.find?_filter]
    congr 1
    funext entry
    by_cases at_here : FilePath.steps entry.1 = here <;> simp [at_here, apart]
  rw [put, List.find?_append, others, List.find?_cons]
  simp [steps_ofSteps valid, Ne.symm apart]

/-- What lies on the way to an entry still does, if only to the new one. -/
theorem any_put (valid : IsPlace place)
    (h : files.entries.any fun entry => here.isPrefixOf (FilePath.steps entry.1)) :
    (files.put place content).entries.any fun entry =>
      here.isPrefixOf (FilePath.steps entry.1) := by
  obtain ⟨entry, found, within⟩ := List.any_eq_true.1 h
  rw [put, List.any_append, Bool.or_eq_true]
  by_cases replaced : FilePath.steps entry.1 = place
  · rw [replaced] at within
    exact .inr (by simpa [steps_ofSteps valid] using within)
  · exact .inl (List.any_eq_true.2 ⟨entry, by simpa using ⟨found, replaced⟩, within⟩)

/-- Writing leaves every directory in place. -/
theorem at?_put_directory (valid : IsPlace place) (free : files.at? place ≠ some .directory)
    (content : String) (h : files.at? here = some .directory) :
    (files.put place content).at? here = some .directory := by
  have apart : here ≠ place := by
    rintro rfl
    exact free h
  unfold at? at h ⊢
  split at h
  · rename_i always
    rw [if_pos always]
  · rename_i ordinary
    rw [if_neg ordinary]
    -- a directory is an entry, which stays, or lies on the way to one
    rw [find?_put valid apart]
    split at h
    · exact h
    · split at h
      · rename_i within
        rw [if_pos (any_put valid within)]
      · cases h

theorem follow_put (valid : IsPlace place) (free : files.at? place ≠ some .directory)
    (content : String) {goal : List String} (led : files.follow here steps = .ok goal) :
    (files.put place content).follow here steps = .ok goal := by
  induction steps generalizing here with
  | nil => exact led
  | cons step steps ih =>
    obtain ⟨directory, short, led⟩ := follow_cons_ok led
    rw [follow, at?_put_directory valid free content directory]
    dsimp only
    rw [if_neg short, ih led]

/-- A path leads to the text that was written to it. -/
theorem look_put (led : files.resolve path = .ok place) (free : files.at? place ≠ some .directory)
    (content : String) : (files.put place content).look path = .ok (.text content) := by
  have valid := isPlace_resolve led
  have again : (files.put place content).resolve path = .ok place := by
    rw [resolve_eq_follow led]
    exact follow_put valid free content ((resolve_eq_follow led files).symm.trans led)
  rw [look, again]
  dsimp only
  rw [at?_put valid free]

/-- A file that was written in a normal path is there, with this text if its lines end as they
    should. -/
theorem isFile_put (led : files.resolve (normal path) = .ok place)
    (free : files.at? place ≠ some .directory) (content : String) :
    (files.put place content).isFile (normal path) = .ok true := by
  rw [isFile, normal_normal, look_put led free]

theorem unifyNewlines_plain {s : List Char} (plain : '\r' ∉ s) : Text.unifyNewlines s = s := by
  induction s with
  | nil => rfl
  | cons c s ih =>
    have first : c ≠ '\r' := fun carriage => plain (by simp [carriage])
    simp [Text.unifyNewlines, first, ih fun found => plain (List.mem_cons_of_mem _ found)]

theorem read_put (led : files.resolve path = .ok place) (free : files.at? place ≠ some .directory)
    (plain : '\r' ∉ content.toList) : (files.put place content).read path = .ok content := by
  rw [read, look_put led free]
  dsimp only
  rw [unifyNewlines_plain plain, String.ofList_toList]

end Files
end StackCalc
