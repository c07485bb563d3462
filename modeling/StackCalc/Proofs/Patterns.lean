/-
  StackCalc.Proofs.Patterns

  Patterns for pieces of a text.  A pattern is tried at a place of a text, which is given by
  the character before it and the text from there on, and it has a list of ways to match
  there, the preferred one first: a repetition takes as many characters as it can or as few,
  and of two alternatives the first is tried first (`Pattern.ways`).  `Pattern.Fits` says which
  pieces a pattern matches without an order, and `mem_ways_iff` that these are the ways.
-/

import Mathlib.Data.List.Basic
import StackCalc.Proofs.Scanning

namespace StackCalc

open StackCalc.Text

/-! ## Patterns -/

/-- A pattern for a piece of a text, which may look at what stands around the piece. -/
inductive Pattern where
  /-- No character at all. -/
  | nothing
  /-- One character of a class. -/
  | one (p : Char → Bool)
  /-- Characters of a class, as many as possible. -/
  | many (p : Char → Bool)
  /-- Characters of a class, as few as possible. -/
  | few (p : Char → Bool)
  | seq (first second : Pattern)
  /-- The first pattern, or else the second. -/
  | either (first second : Pattern)
  /-- A place in front of no character of a class. -/
  | unlessAhead (p : Char → Bool)
  /-- A place behind no character of a class. -/
  | unlessBehind (p : Char → Bool)
  /-- The end of the text. -/
  | atEnd

/-- A way to match: the piece that is taken, and the text behind it. -/
abbrev Way := List Char × List Char

/-- The ways to take characters of a class from the front of a text, the longest first. -/
def manyWays (p : Char → Bool) : List Char → List Way
  | [] => [([], [])]
  | c :: s =>
    if p c then (manyWays p s).map (fun w => (c :: w.1, w.2)) ++ [([], c :: s)] else [([], c :: s)]

/-- The character in front of a place, which is the last of a piece that was taken there or
    else the one that stood in front of the piece. -/
def lastOf (before : Option Char) (piece : List Char) : Option Char := piece.getLast?.or before

namespace Pattern

/-- The ways in which a pattern matches behind a character and in front of a text, in the order
    in which they are tried. -/
def ways : Pattern → Option Char → List Char → List Way
  | nothing, _, s => [([], s)]
  | one _, _, [] => []
  | one p, _, c :: s => if p c then [([c], s)] else []
  | many p, _, s => manyWays p s
  | few p, _, s => (manyWays p s).reverse
  | seq first second, before, s =>
    (first.ways before s).flatMap fun w =>
      (second.ways (lastOf before w.1) w.2).map fun v => (w.1 ++ v.1, v.2)
  | either first second, before, s => first.ways before s ++ second.ways before s
  | unlessAhead p, _, s => if s.head?.any p then [] else [([], s)]
  | unlessBehind p, before, s => if before.any p then [] else [([], s)]
  | atEnd, _, s => if s = [] then [([], [])] else []

/-- The way that is preferred. -/
def first? (pattern : Pattern) (before : Option Char) (s : List Char) : Option Way :=
  (pattern.ways before s).head?

/-- Whether a pattern matches a piece between a character and a text. -/
def Fits : Pattern → Option Char → List Char → List Char → Prop
  | nothing, _, piece, _ => piece = []
  | one p, _, piece, _ => ∃ c, piece = [c] ∧ p c = true
  | many p, _, piece, _ => ∀ c ∈ piece, p c = true
  | few p, _, piece, _ => ∀ c ∈ piece, p c = true
  | seq first second, before, piece, rest =>
    ∃ u v, piece = u ++ v ∧ first.Fits before u (v ++ rest) ∧ second.Fits (lastOf before u) v rest
  | either first second, before, piece, rest =>
    first.Fits before piece rest ∨ second.Fits before piece rest
  | unlessAhead p, _, piece, rest => piece = [] ∧ rest.head?.any p = false
  | unlessBehind p, before, piece, _ => piece = [] ∧ before.any p = false
  | atEnd, _, piece, rest => piece = [] ∧ rest = []

end Pattern

theorem mem_manyWays_iff {p : Char → Bool} {s piece rest : List Char} :
    (piece, rest) ∈ manyWays p s ↔ piece ++ rest = s ∧ ∀ c ∈ piece, p c = true := by
  induction s generalizing piece with
  | nil =>
    simp only [manyWays, List.mem_singleton, Prod.mk.injEq, List.append_eq_nil_iff]
    constructor
    · rintro ⟨rfl, rfl⟩
      exact ⟨⟨rfl, rfl⟩, nofun⟩
    · exact fun h => h.1
  | cons c s ih =>
    -- Either nothing is taken, or the first character and then some of the rest.
    cases piece with
    | nil =>
      simp only [manyWays]
      split <;> simp
    | cons d piece =>
      simp only [manyWays]
      split
      · rename_i hc
        simp only [List.mem_append, List.mem_map, List.mem_singleton, Prod.mk.injEq, Prod.exists,
          List.cons.injEq, List.cons_append, List.forall_mem_cons]
        constructor
        · rintro (⟨u, v, huv, ⟨rfl, rfl⟩, rfl⟩ | ⟨h, _⟩)
          · obtain ⟨hs, hall⟩ := ih.mp huv
            exact ⟨⟨rfl, hs⟩, hc, hall⟩
          · cases h
        · rintro ⟨⟨rfl, hs⟩, _, hall⟩
          exact .inl ⟨piece, rest, ih.mpr ⟨hs, hall⟩, ⟨rfl, rfl⟩, rfl⟩
      · rename_i hc
        simp only [List.mem_singleton, Prod.mk.injEq, reduceCtorEq, false_and, false_iff,
          List.cons_append, List.cons.injEq, List.forall_mem_cons]
        rintro ⟨⟨rfl, _⟩, hd, _⟩
        exact hc hd

/-- As many characters as possible are all up to the first of another class. -/
theorem head?_manyWays (p : Char → Bool) (s : List Char) :
    (manyWays p s).head? = some (s.takeWhile p, s.dropWhile p) := by
  induction s with
  | nil => rfl
  | cons c s ih =>
    rw [manyWays]
    split
    · rename_i hc
      rw [List.head?_append, List.head?_map, ih, List.takeWhile_cons_of_pos hc,
        List.dropWhile_cons_of_pos hc]
      rfl
    · rename_i hc
      rw [List.takeWhile_cons_of_neg hc, List.dropWhile_cons_of_neg hc]
      rfl

namespace Pattern

variable {P Q : Pattern} {before : Option Char} {s piece rest r t : List Char}

/-- The ways of a pattern are the pieces that it fits. -/
theorem mem_ways_iff :
    (piece, rest) ∈ P.ways before s ↔ piece ++ rest = s ∧ P.Fits before piece rest := by
  induction P generalizing before s piece rest with
  | nothing => grind [ways, Fits]
  | one p =>
    cases s with
    | nil => grind [ways, Fits]
    | cons c s => grind [ways, Fits]
  | many p => exact mem_manyWays_iff
  | few p => rw [ways, List.mem_reverse]; exact mem_manyWays_iff
  | seq P Q hP hQ =>
    simp only [ways, List.mem_flatMap, List.mem_map, Prod.exists, Prod.mk.injEq, Fits]
    constructor
    · rintro ⟨u, middle, hu, v, _, hv, rfl, rfl⟩
      obtain ⟨rfl, hfirst⟩ := hP.mp hu
      obtain ⟨rfl, hsecond⟩ := hQ.mp hv
      exact ⟨List.append_assoc .., u, v, rfl, hfirst, hsecond⟩
    · rintro ⟨rfl, u, v, rfl, hfirst, hsecond⟩
      exact ⟨u, v ++ rest, hP.mpr ⟨(List.append_assoc ..).symm, hfirst⟩, v, rest,
        hQ.mpr ⟨rfl, hsecond⟩, rfl, rfl⟩
  | either P Q hP hQ =>
    simp only [ways, List.mem_append, hP, hQ, Fits]
    tauto
  | unlessAhead p => grind [ways, Fits]
  | unlessBehind p => grind [ways, Fits]
  | atEnd => grind [ways, Fits]

theorem first?_eq_some {w : Way} (hmem : w ∈ P.ways before s) (honly : ∀ v ∈ P.ways before s, v = w) :
    P.first? before s = some w := by
  rw [first?]
  cases hways : P.ways before s with
  | nil =>
    rw [hways] at hmem
    cases hmem
  | cons v _ => rw [List.head?_cons, honly v (by rw [hways]; exact List.mem_cons_self ..)]

theorem first?_eq_none (hnone : ∀ v, v ∉ P.ways before s) : P.first? before s = none := by
  rw [first?, List.eq_nil_iff_forall_not_mem.mpr hnone]
  rfl

/-! ## Derived patterns -/

/-- At least one character of a class, and as many as possible. -/
def atLeastOne (p : Char → Bool) : Pattern := .seq (.one p) (.many p)

/-- A pattern or, where it does not match, nothing. -/
def optional (P : Pattern) : Pattern := .either P .nothing

/-- The characters of a word, one by one. -/
def spelled (word : List Char) : Pattern :=
  word.foldr (fun c rest => .seq (.one (· = c)) rest) .nothing

/-- One of several words. -/
def oneOf (words : List String) : Pattern :=
  words.foldr (fun word rest => .either (.spelled word.toList) rest) (.one fun _ => false)

/-- A pattern that only matches where the run ends behind it. -/
def alone (P : Pattern) : Pattern := .seq P (.unlessAhead isInk)

@[simp] theorem fits_optional :
    P.optional.Fits before piece rest ↔ P.Fits before piece rest ∨ piece = [] := .rfl

@[simp] theorem fits_atLeastOne {p : Char → Bool} :
    (atLeastOne p).Fits before piece rest ↔ piece ≠ [] ∧ ∀ c ∈ piece, p c = true := by
  simp only [atLeastOne, Fits]
  constructor
  · rintro ⟨_, v, rfl, ⟨c, rfl, hc⟩, hv⟩
    exact ⟨List.cons_ne_nil c v, List.forall_mem_cons.mpr ⟨hc, hv⟩⟩
  · rintro ⟨hne, hall⟩
    obtain ⟨c, v, rfl⟩ := List.exists_cons_of_ne_nil hne
    obtain ⟨hc, hv⟩ := List.forall_mem_cons.mp hall
    exact ⟨[c], v, rfl, ⟨c, rfl, hc⟩, hv⟩

@[simp] theorem fits_spelled {word : List Char} :
    (spelled word).Fits before piece rest ↔ piece = word := by
  induction word generalizing before piece with
  | nil => exact .rfl
  | cons c word ih =>
    have hunfold : spelled (c :: word) = .seq (.one (· = c)) (spelled word) := rfl
    simp only [hunfold, Fits, ih, decide_eq_true_eq]
    constructor
    · rintro ⟨_, _, rfl, ⟨_, rfl, rfl⟩, rfl⟩
      rfl
    · rintro rfl
      exact ⟨[c], word, rfl, ⟨c, rfl, rfl⟩, rfl⟩

@[simp] theorem fits_oneOf {words : List String} :
    (oneOf words).Fits before piece rest ↔ String.ofList piece ∈ words := by
  induction words with
  | nil => simp [oneOf, Fits]
  | cons word words ih =>
    have hunfold : oneOf (word :: words) = .either (.spelled word.toList) (oneOf words) := rfl
    have hword : piece = word.toList ↔ String.ofList piece = word := by
      constructor
      · rintro rfl
        exact String.ofList_toList
      · rintro rfl
        exact String.toList_ofList.symm
    simp only [hunfold, Fits, ih, fits_spelled, List.mem_cons, hword]

/-- As many characters of a class as there are in a row, if there are any. -/
theorem first?_atLeastOne (p : Char → Bool) (before : Option Char) (s : List Char) :
    (atLeastOne p).first? before s
      = if s.head?.any p then some (s.takeWhile p, s.dropWhile p) else none := by
  cases s with
  | nil => rfl
  | cons c s =>
    simp only [first?, atLeastOne, ways]
    by_cases hc : p c = true
    · simp [hc, head?_manyWays]
    · simp [hc]

end Pattern

/-! ## Patterns and runs -/

variable {P : Pattern} {before : Option Char} {r t : List Char}

namespace Pattern

/-- A pattern of runs that stands alone matches the whole run in front of a text, or nothing. -/
theorem first?_alone (hruns : ∀ piece rest, P.Fits before piece rest → IsRun piece)
    (hr : IsRun r) (ht : EndsRun t) {fits : Bool} (hfits : P.Fits before r t ↔ fits = true) :
    P.alone.first? before (r ++ t) = if fits then some (r, t) else none := by
  -- Wherever the pattern can match, its piece ends where the run does.
  have hways : ∀ w, w ∈ P.alone.ways before (r ++ t) ↔ w = (r, t) ∧ fits = true := by
    rintro ⟨u, v⟩
    rw [mem_ways_iff, ← hfits]
    simp only [alone, Fits, ← endsRun_iff, Prod.mk.injEq]
    constructor
    · rintro ⟨htext, u, _, rfl, hu, rfl, hv⟩
      rw [List.append_nil] at htext ⊢
      obtain ⟨rfl, rfl⟩ := run_unique (hruns _ _ hu) hv hr ht htext
      exact ⟨⟨rfl, rfl⟩, hu⟩
    · rintro ⟨⟨rfl, rfl⟩, hu⟩
      exact ⟨rfl, u, [], (List.append_nil u).symm, hu, rfl, ht⟩
  cases fits with
  | true => exact first?_eq_some ((hways _).mpr ⟨rfl, rfl⟩) fun v hv => ((hways v).mp hv).1
  | false => exact first?_eq_none fun v hv => nomatch ((hways v).mp hv).2

end Pattern

end StackCalc
