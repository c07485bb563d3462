/-
  StackCalc.Proofs.StackEffects

  Operations keep their stack effects.  The check before an operation lets exactly the
  stacks pass that start with cells of the types that it takes (`checkInputs_ok_iff`), and
  a built-in operation on such cells pushes cells of the types that it promises or has a
  trouble of its own, which is never a fault of the machinery (`functions_honest`).
-/

import StackCalc.Evaluation.Block
import Mathlib.Data.List.Forall2

namespace StackCalc

/-! ## Checks -/

/-- Cells of the given types, one for each. -/
abbrev Fits (types : List CellType) (cells : List Cell) : Prop :=
  List.Forall₂ (fun type cell => type.accepts cell = true) types cells

theorem firstMismatch?_eq_none_iff {types : List CellType} {stack : Stack}
    (hlength : types.length ≤ stack.length) (position : Nat) :
    firstMismatch? position types stack = none ↔ Fits types (stack.take types.length) := by
  induction types generalizing stack position with
  | nil => simp [firstMismatch?]
  | cons expected types ih =>
    cases stack with
    | nil => simp at hlength
    | cons cell rest =>
      have hrest : types.length ≤ rest.length := by simpa using hlength
      rw [firstMismatch?, List.length_cons, List.take_succ_cons, Fits, List.forall₂_cons]
      by_cases hcell : expected.accepts cell = true
      · rw [if_pos hcell, ih hrest]
        exact ⟨fun h => ⟨hcell, h⟩, fun h => h.2⟩
      · rw [if_neg hcell]
        exact ⟨nofun, fun h => absurd h.1 hcell⟩

/-- Cells behind those that are checked make no difference. -/
theorem firstMismatch?_append {types : List CellType} {stack : Stack}
    (hlength : types.length ≤ stack.length) (position : Nat) (base : Stack) :
    firstMismatch? position types (stack ++ base) = firstMismatch? position types stack := by
  induction types generalizing stack position with
  | nil => simp [firstMismatch?]
  | cons expected types ih =>
    cases stack with
    | nil => simp at hlength
    | cons cell rest =>
      have hrest : types.length ≤ rest.length := by simpa using hlength
      rw [List.cons_append, firstMismatch?, firstMismatch?, ih hrest]

/-- The depth is checked before the types. -/
theorem checkInputs_of_short (name : String) {types : List CellType} {stack : Stack}
    (h : stack.length < types.length) :
    checkInputs name types stack
      = .error (.onStack name stack (.tooFew name types.length stack.length)) := by
  have htake : (stack.take types.length).length = stack.length := by
    rw [List.length_take]
    omega
  rw [checkInputs, htake, if_pos h]

theorem checkInputs_of_deep (name : String) {types : List CellType} {stack : Stack}
    (h : types.length ≤ stack.length) :
    checkInputs name types stack =
      (firstMismatch? 1 types stack).elim (.ok ()) fun (position, expected, cell) =>
        .error (.onStack name stack (.wrongType name expected position cell)) := by
  have htake : (stack.take types.length).length = types.length := by
    rw [List.length_take]
    omega
  rw [checkInputs, htake, if_neg (Nat.lt_irrefl _)]
  cases firstMismatch? 1 types stack <;> rfl

/-- A stack passes the check exactly if it starts with cells of the types. -/
theorem checkInputs_ok_iff {name : String} {types : List CellType} {stack : Stack} :
    checkInputs name types stack = .ok () ↔ Fits types (stack.take types.length) := by
  by_cases hlength : types.length ≤ stack.length
  · rw [checkInputs_of_deep name hlength, ← firstMismatch?_eq_none_iff hlength 1]
    cases firstMismatch? 1 types stack with
    | none => simp
    | some mismatch => simp
  · rw [checkInputs_of_short name (by omega)]
    refine ⟨nofun, fun h => ?_⟩
    have htake := h.length_eq
    rw [List.length_take] at htake
    omega

theorem accepts_number_iff {cell : Cell} :
    CellType.number.accepts cell = true ↔ ∃ x, cell = .number x := by
  cases cell <;> simp [CellType.accepts]

theorem fits_number_cons {types : List CellType} {cells : List Cell} :
    Fits (.number :: types) cells ↔ ∃ x rest, Fits types rest ∧ cells = .number x :: rest := by
  simp only [Fits, List.forall₂_cons_left_iff, accepts_number_iff]
  exact ⟨fun ⟨_, rest, ⟨x, hx⟩, hrest, h⟩ => ⟨x, rest, hrest, hx ▸ h⟩,
    fun ⟨x, rest, hrest, h⟩ => ⟨_, rest, ⟨x, rfl⟩, hrest, h⟩⟩

/-- A conditional looks at two numbers. -/
theorem selectBranch_numbers (test : Test) (x y : Float) (rest : Stack) :
    selectBranch test (.number y :: .number x :: rest) =
      match test.holds? x y with
      | some condition => .ok (condition, rest)
      | none => .error (.fault (.unknownKeyword test.keyword)) := rfl

/-! ## Results of operations -/

/-- Troubles that are not faults of the machinery. -/
def Trouble.IsOwn : Trouble → Prop
  | fault _ => False
  | _ => True

/-- An outcome that is no fault of the machinery. -/
def Faultless {α : Type} (x : Except Trouble α) : Prop :=
  ∀ trouble, x = .error trouble → trouble.IsOwn

namespace Faultless

variable {α β : Type}

theorem ok (a : α) : Faultless (.ok a) := nofun

theorem refused (refusal : Refusal) :
    Faultless (.error (.refused refusal) : Except Trouble α) := by
  rintro _ ⟨⟩
  trivial

theorem problem (problem : DomainProblem) :
    Faultless (.error (.problem problem) : Except Trouble α) := by
  rintro _ ⟨⟩
  trivial

theorem map {x : Except Trouble α} (hx : Faultless x) (f : α → β) : Faultless (x.map f) := by
  cases x with
  | ok a => exact ok (f a)
  | error trouble =>
    rintro _ ⟨⟩
    exact hx _ rfl

theorem bind {x : Except Trouble α} {f : α → Except Trouble β} (hx : Faultless x)
    (hf : ∀ a, Faultless (f a)) : Faultless (x.bind f) := by
  cases x with
  | ok a => exact hf a
  | error trouble =>
    rintro _ ⟨⟩
    exact hx _ rfl

theorem ite {c : Prop} [Decidable c] {x y : Except Trouble α} (hx : Faultless x)
    (hy : Faultless y) : Faultless (if c then x else y) := by
  split <;> assumption

theorem defined (x : Except Double.Undefined Float) : Faultless (Native.defined x) := by
  cases x with
  | ok y => exact ok y
  | error reason => exact refused _

theorem countable (purpose : Purpose) (x : Float) : Faultless (Builtin.countable purpose x) :=
  ite (ok _) (problem _)

theorem factorial (x : Float) : Faultless (Builtin.factorial x) := by
  unfold Builtin.factorial
  exact bind (countable _ x) fun n => ite (problem _) (ok _)

theorem commonDivisor (x y : Float) : Faultless (Builtin.commonDivisor x y) :=
  bind (countable _ x) fun _ => bind (countable _ y) fun _ => defined _

theorem natural (purpose : Purpose) (x : Float) : Faultless (Conversion.natural purpose x) :=
  ite (ok _) (problem _)

theorem textOf (purpose : Purpose) (c : Cell) : Faultless (Conversion.textOf purpose c) := by
  cases c with
  | number x => exact map (natural purpose x) _
  | text s => exact ok _

theorem readText (base : Base) (s : List Char) : Faultless (Conversion.readText base s) := by
  unfold Conversion.readText
  cases base.read? s with
  | some n => exact ok n
  | none => exact problem _

theorem readCell (base : Base) (c : Cell) : Faultless (Conversion.readCell base c) :=
  bind (textOf _ c) fun _ => readText base _

theorem toDouble_eq : Conversion.toDouble = fun n =>
    (Double.ofInt? n).elim (.error (.refused (.undefined .integerTooLarge))) .ok := by
  -- Unfolded as a function: applied to a number, it would be evaluated.
  unfold Conversion.toDouble
  funext n
  generalize Double.ofInt? n = double
  cases double <;> rfl

theorem toDouble (n : Int) : Faultless (Conversion.toDouble n) := by
  rw [toDouble_eq]
  dsimp only
  cases Double.ofInt? n with
  | some x => exact ok x
  | none => exact refused _

theorem channels (c : Cell) : Faultless (Conversion.channels c) := by
  refine bind (textOf _ c) fun text => ?_
  dsimp only
  split
  · refine bind (readText _ _) fun r => bind (readText _ _) fun g => bind (readText _ _) fun b => ?_
    exact bind (toDouble r) fun _ => bind (toDouble g) fun _ => bind (toDouble b) fun _ => ok _
  · exact problem _

theorem writeNumber (base : Base) (purpose : Purpose) (x : Float) :
    Faultless (Conversion.writeNumber base purpose x) :=
  map (natural purpose x) _

theorem valueIn (base : Base) (c : Cell) : Faultless (Conversion.valueIn base c) :=
  bind (readCell base c) toDouble

theorem respell (source target : Base) (c : Cell) :
    Faultless (Conversion.respell source target c) :=
  map (readCell source c) _

theorem colour (r g b : Float) : Faultless (Conversion.colour r g b) :=
  bind (natural _ r) fun _ => bind (natural _ g) fun _ => bind (natural _ b) fun _ =>
    ite (problem _) (ok _)

end Faultless

/-! ## Honest operations -/

/-- The outcome of an operation that promises cells of the given types. -/
def Promised (outputs : List CellType) (x : Except Trouble (List Cell)) : Prop :=
  Faultless x ∧ ∀ reply, x = .ok reply → Fits outputs reply

theorem Promised.ok {outputs : List CellType} {reply : List Cell} (h : Fits outputs reply) :
    Promised outputs (.ok reply) :=
  ⟨.ok reply, by rintro _ ⟨⟩; exact h⟩

theorem Promised.map {α : Type} {outputs : List CellType} {x : Except Trouble α}
    {f : α → List Cell} (hx : Faultless x) (hf : ∀ a, x = .ok a → Fits outputs (f a)) :
    Promised outputs (x.map f) := by
  refine ⟨hx.map f, fun reply h => ?_⟩
  cases x with
  | ok a =>
    cases h
    exact hf a rfl
  | error trouble => cases h

namespace Native

/-- An operation that keeps its stack effect: on cells of the types that it takes it
    pushes cells of the types that it promises, or has a trouble of its own. -/
def Honest (operation : Native) : Prop :=
  ∃ inputs outputs, operation.effect = ⟨some inputs, some outputs⟩
    ∧ ∀ cells, Fits inputs cells → Promised outputs (operation.body cells.reverse)

theorem constant_honest (x : Float) : (constant x).Honest := by
  refine ⟨_, _, rfl, fun cells hcells => ?_⟩
  cases hcells
  exact .ok (by simp [CellType.accepts])

theorem unary_honest {f : Float → Except Trouble Float} (hf : ∀ x, Faultless (f x)) :
    (unary f).Honest := by
  refine ⟨_, _, rfl, fun cells hcells => ?_⟩
  obtain ⟨x, _, ⟨⟩, rfl⟩ := fits_number_cons.mp hcells
  exact .map (hf x) (by simp [CellType.accepts])

theorem binary_honest {f : Float → Float → Except Trouble Float}
    (hf : ∀ x y, Faultless (f x y)) : (binary f).Honest := by
  refine ⟨_, _, rfl, fun cells hcells => ?_⟩
  obtain ⟨y, _, hrest, rfl⟩ := fits_number_cons.mp hcells
  obtain ⟨x, _, ⟨⟩, rfl⟩ := fits_number_cons.mp hrest
  exact .map (hf x y) (by simp [CellType.accepts])

theorem numeral_honest {f : Float → Except Trouble String} (hf : ∀ x, Faultless (f x)) :
    (numeral f).Honest := by
  refine ⟨_, _, rfl, fun cells hcells => ?_⟩
  obtain ⟨x, _, ⟨⟩, rfl⟩ := fits_number_cons.mp hcells
  exact .map (hf x) (by simp [CellType.accepts])

theorem value_honest {f : Cell → Except Trouble Float} (hf : ∀ c, Faultless (f c)) :
    (value f).Honest := by
  refine ⟨_, _, rfl, fun cells hcells => ?_⟩
  obtain ⟨c, _, -, ⟨⟩, rfl⟩ := List.forall₂_cons_left_iff.mp hcells
  exact .map (hf c) (by simp [CellType.accepts])

theorem renumeral_honest {f : Cell → Except Trouble String} (hf : ∀ c, Faultless (f c)) :
    (renumeral f).Honest := by
  refine ⟨_, _, rfl, fun cells hcells => ?_⟩
  obtain ⟨c, _, -, ⟨⟩, rfl⟩ := List.forall₂_cons_left_iff.mp hcells
  exact .map (hf c) (by simp [CellType.accepts])

theorem triple_honest {f : Cell → Except Trouble (Float × Float × Float)}
    (hf : ∀ c, Faultless (f c)) : (triple f).Honest := by
  refine ⟨_, _, rfl, fun cells hcells => ?_⟩
  obtain ⟨c, _, -, ⟨⟩, rfl⟩ := List.forall₂_cons_left_iff.mp hcells
  exact .map (hf c) (by simp [CellType.accepts])

/-- Cells that fit three numbers, in the order in which the operation is given them. -/
theorem reverse_of_three_numbers {cells : List Cell} (h : Fits [.number, .number, .number] cells) :
    ∃ x y z, cells.reverse = [.number x, .number y, .number z] := by
  obtain ⟨z, _, htwo, rfl⟩ := fits_number_cons.mp h
  obtain ⟨y, _, hone, rfl⟩ := fits_number_cons.mp htwo
  obtain ⟨x, _, ⟨⟩, rfl⟩ := fits_number_cons.mp hone
  exact ⟨x, y, z, rfl⟩

theorem joined_honest {f : Float → Float → Float → Except Trouble String}
    (hf : ∀ x y z, Faultless (f x y z)) : (joined f).Honest := by
  refine ⟨_, _, rfl, fun cells hcells => ?_⟩
  obtain ⟨x, y, z, hreverse⟩ := reverse_of_three_numbers hcells
  rw [hreverse]
  exact .map (hf x y z) (by simp [CellType.accepts])

theorem quadruple_honest {f : Float → Float → Float → Except Trouble (List Float)}
    (hf : ∀ x y z, Faultless (f x y z))
    (hfour : ∀ x y z results, f x y z = .ok results → results.length = 4) :
    (quadruple f).Honest := by
  refine ⟨_, _, rfl, fun cells hcells => ?_⟩
  obtain ⟨x, y, z, hreverse⟩ := reverse_of_three_numbers hcells
  rw [hreverse]
  refine .map (hf x y z) fun results hresults => ?_
  match results, hfour x y z results hresults with
  | [_, _, _, _], _ => simp [CellType.accepts]

theorem exchange_honest : exchange.Honest := by
  refine ⟨_, _, rfl, fun cells hcells => ?_⟩
  obtain ⟨x, _, -, hrest, rfl⟩ := List.forall₂_cons_left_iff.mp hcells
  obtain ⟨y, _, -, ⟨⟩, rfl⟩ := List.forall₂_cons_left_iff.mp hrest
  exact .ok (by simp [CellType.accepts])

theorem duplicate_honest : duplicate.Honest := by
  refine ⟨_, _, rfl, fun cells hcells => ?_⟩
  obtain ⟨x, _, -, ⟨⟩, rfl⟩ := List.forall₂_cons_left_iff.mp hcells
  exact .ok (by simp [CellType.accepts])

theorem discard_honest : discard.Honest := by
  refine ⟨_, _, rfl, fun cells hcells => ?_⟩
  obtain ⟨x, _, -, ⟨⟩, rfl⟩ := List.forall₂_cons_left_iff.mp hcells
  exact .ok .nil

end Native

/-! ## The table of functions -/

namespace Builtin

theorem total_faultless (f : Float → Float) (x : Float) : Faultless (total f x) := .ok _

theorem total₂_faultless (f : Float → Float → Float) (x y : Float) : Faultless (total₂ f x y) :=
  .ok _

theorem partly_faultless (f : Float → Except Double.Undefined Float) (x : Float) :
    Faultless (partly f x) := .defined _

theorem partly₂_faultless (f : Float → Float → Except Double.Undefined Float) (x y : Float) :
    Faultless (partly₂ f x y) := .defined _

theorem roots_faultless (a b c : Float) : Faultless (roots a b c) :=
  .ite (.map (.defined _) _) (.map (.defined _) _)

/-- Each of the two roots has a real and an imaginary part. -/
theorem length_of_roots {a b c : Float} {results : List Float} (h : roots a b c = .ok results) :
    results.length = 4 := by
  have hmap : ∀ (x : Except Trouble Float) (f : Float → List Float),
      (∀ y, (f y).length = 4) → x.map f = .ok results → results.length = 4 := by
    intro x f hf hx
    cases x with
    | ok y => cases hx; exact hf y
    | error trouble => cases hx
  unfold roots at h
  dsimp only at h
  split at h
  · exact hmap _ _ (fun _ => rfl) h
  · exact hmap _ _ (fun _ => rfl) h

end Builtin

/-- A function that keeps its stack effect; those that print or draw are no operations
    on cells alone. -/
def Function.Honest : Function → Prop
  | native operation => operation.Honest
  | print => True
  | random => True

open Native Builtin in
theorem functions_honest : ∀ entry ∈ functions, entry.2.Honest := by
  have hroots : (quadruple roots).Honest :=
    quadruple_honest roots_faultless fun _ _ _ _ => length_of_roots
  simp only [functions, List.forall_mem_cons, List.not_mem_nil, false_imp_iff, implies_true,
    Function.Honest, exchange_honest, duplicate_honest, discard_honest, constant_honest,
    unary_honest, binary_honest, numeral_honest, value_honest, renumeral_honest, triple_honest,
    joined_honest, hroots, total_faultless, total₂_faultless, partly_faultless, partly₂_faultless,
    Faultless.factorial, Faultless.commonDivisor, Faultless.writeNumber, Faultless.valueIn,
    Faultless.respell, Faultless.channels, Faultless.colour, and_self]

end StackCalc
