/-
  StackCalc.Proofs.HostFunctions

  Functions of the host take their operands in the order of their parameters.  The stack effect
  lists the types of the parameters from the last to the first, as the cells lie on the stack
  (`Signature.exists_types`), so the check meets the cell of each parameter with the type of its
  own annotation (`checkInputs_of_refused`).  How the cells are taken off differs between few
  operands and many, but every way gives the function its operands in the order of the
  parameters (`callOnOperands_eq`).

  What the annotation of the result promises (`Promise.Leaves`) is pushed, but for a tuple with
  one type, which is pushed as a tuple, and for a tuple without types, of which nothing is pushed
  (`leaves_iff`).
-/

import StackCalc.HostCall
import StackCalc.Proofs.StackEffects

namespace StackCalc

/-! ## Promises -/

/-- What a function can promise to leave on the stack: nothing, the value that it hands back, the
    elements of that value, or a new stack. -/
inductive Promise where
  | nothing
  | one
  | elements
  | stack

/-- What is in the place of the stack if a promise is kept: the elements of a tuple are pushed in
    order, the last one on top. -/
inductive Promise.Leaves : Promise → List HostValue → HostValue → HostValue → Prop
  | nothing (base : List HostValue) (returned : HostValue) :
      Leaves .nothing base returned (.stack base)
  | one (base : List HostValue) (returned : HostValue) :
      Leaves .one base returned (.stack (returned :: base))
  | elements (base items : List HostValue) :
      Leaves .elements base (.tuple items) (.stack (items.reverse ++ base))
  | stack (base values : List HostValue) : Leaves .stack base (.stack values) (.stack values)

/-! ## Signatures -/

namespace Signature

/-- The only operand is the stack itself. -/
def TakesStack (signature : Signature) : Prop :=
  ∃ p declared, signature.operands = [p] ∧ p.declared = some declared ∧ declared.isStack = true

/-- What the annotation of a result promises to be left on the stack, and the types of it, or
    nothing if it promises a new stack.  Without an annotation there is one output of any type. -/
inductive Promises : Option TypeExpr → Promise → Option (List CellType) → Prop
  | unannotated : Promises none .one (some [.any])
  | nothing : Promises (some .nothing) .nothing (some [])
  | nothingClass : Promises (some (.plain TypeExpr.nothingClass)) .nothing (some [])
  | tuple {items : List TypeExpr} {types : List CellType}
      (hitems : List.Forall₂ (fun item t => item.type = .ok t) items types) :
      Promises (some (.tuple items)) .elements (some types)
  | stack {declared : TypeExpr} (hstack : declared.isStack = true) :
      Promises (some declared) .stack none
  | single {declared : TypeExpr} {t : CellType} (hstack : declared.isStack = false)
      (htuple : ∀ items, declared ≠ .tuple items)
      (hnothing : declared ≠ .plain TypeExpr.nothingClass)
      (htype : declared.type = .ok t) : Promises (some declared) .one (some [t])

theorem forall₂_of_mapM {α β ε : Type} {f : α → Except ε β} {xs : List α} {ys : List β}
    (h : xs.mapM f = .ok ys) : List.Forall₂ (fun x y => f x = .ok y) xs ys := by
  induction xs generalizing ys with
  | nil =>
    cases h
    exact .nil
  | cons x xs ih =>
    rw [List.mapM_cons] at h
    cases hx : f x with
    | error e =>
      rw [hx] at h
      cases h
    | ok y =>
      cases hxs : xs.mapM f with
      | error e =>
        rw [hx, hxs] at h
        cases h
      | ok rest =>
        rw [hx, hxs] at h
        cases h
        exact .cons hx (ih hxs)

theorem promises_of_results {declared : Option TypeExpr} {outputs : Option (List CellType)}
    (h : results declared = .ok outputs) : ∃ promise, Promises declared promise outputs := by
  unfold results at h
  split at h
  · obtain rfl := Except.ok.inj h
    exact ⟨_, .unannotated⟩
  · obtain rfl := Except.ok.inj h
    exact ⟨_, .nothing⟩
  · rename_i items
    cases hitems : items.mapM TypeExpr.type with
    | error trouble =>
      rw [hitems] at h
      cases h
    | ok types =>
      rw [hitems] at h
      obtain rfl := Except.ok.inj h
      exact ⟨_, .tuple (forall₂_of_mapM hitems)⟩
  · rename_i t
    obtain rfl := Except.ok.inj h
    by_cases ht : t = TypeExpr.nothingClass
    · rw [if_pos ht, ht]
      exact ⟨_, .nothingClass⟩
    · rw [if_neg ht]
      exact ⟨_, .single rfl nofun (fun h => ht (TypeExpr.plain.inj h)) rfl⟩
  · rename_i declared hnothing htuple hplain
    split at h
    · rename_i hstack
      obtain rfl := Except.ok.inj h
      exact ⟨_, .stack hstack⟩
    · rename_i hstack
      cases htype : declared.type with
      | error trouble =>
        rw [htype] at h
        cases h
      | ok t =>
        rw [htype] at h
        obtain rfl := Except.ok.inj h
        exact ⟨_, .single (Bool.not_eq_true _ ▸ hstack) htuple (hplain _) htype⟩

variable {signature : Signature} {effect : Effect}

theorem takes_of_not_takesStack (h : ¬signature.TakesStack) :
    signature.takes
      = (signature.operands.mapM operandType).map fun types => some types.reverse := by
  unfold takes
  split
  · rename_i kind hasDefault declared hoperands
    have hstack : ¬declared.isStack = true := fun hstack => h ⟨_, declared, hoperands, rfl, hstack⟩
    have htype : operandType ⟨kind, hasDefault, some declared⟩ = declared.type := rfl
    rw [if_neg hstack, hoperands, List.mapM_cons, List.mapM_nil, htype]
    cases declared.type <;> rfl
  · rfl

/-- A signature whose stack effect can be read off has a type for every parameter that takes a
    cell, and the effect lists them from the last to the first. -/
theorem exists_types (heffect : signature.effect = .ok effect) (h : ¬signature.TakesStack) :
    ∃ types promise, List.Forall₂ (fun p t => operandType p = .ok t) signature.operands types
      ∧ effect.inputs = some types.reverse
      ∧ Promises signature.result promise effect.outputs := by
  rw [Signature.effect, takes_of_not_takesStack h] at heffect
  split at heffect
  · cases heffect
  · cases hresults : results signature.result with
    | error trouble =>
      rw [hresults] at heffect
      cases heffect
    | ok outputs =>
      cases htypes : signature.operands.mapM operandType with
      | error trouble =>
        rw [hresults, htypes] at heffect
        cases heffect
      | ok types =>
        rw [hresults, htypes] at heffect
        cases heffect
        obtain ⟨promise, hpromises⟩ := promises_of_results hresults
        exact ⟨types, promise, forall₂_of_mapM htypes, rfl, hpromises⟩

end Signature

/-! ## What is pushed -/

/-- A promise is kept unless it is that of the elements of a tuple, and there is one type for
    them, or none for the elements that there are. -/
def Promise.IsKept (promise : Promise) (outputs : Option (List CellType)) (returned : HostValue) :
    Prop :=
  promise = .elements → ∀ types, outputs = some types →
    types.length ≠ 1 ∧ (types = [] → returned.elements? = some [])

variable {outputs : Option (List CellType)}

section

variable {base : List HostValue} {returned after : HostValue}

/-- The elements of a value are pushed in order. -/
theorem pushReturned_elements {t t' : CellType} {types : List CellType} {items : List HostValue}
    (hitems : returned.elements? = some items) :
    pushReturned (some (t :: t' :: types)) base returned
      = .ok (.stack (items.reverse ++ base)) := by
  rw [pushReturned, hitems]
  exact congrArg (Except.ok ∘ HostValue.stack) List.foldl_flip_cons_eq_append'

/-- A tuple is no element of itself. -/
theorem HostValue.tuple_cons_ne (items base : List HostValue) :
    items.reverse ++ base ≠ .tuple items :: base := by
  intro h
  have hlength := congrArg List.length h
  rw [List.length_append, List.length_reverse, List.length_cons] at hlength
  obtain ⟨item, rfl⟩ := List.length_eq_one_iff.mp (show items.length = 1 by omega)
  have hsize := congrArg sizeOf (List.cons.inj h).1
  simp only [tuple.sizeOf_spec, List.cons.sizeOf_spec, List.nil.sizeOf_spec] at hsize
  omega

/-- What the annotation promises is in the place of the stack, exactly if the promise is kept. -/
theorem leaves_iff {declared : Option TypeExpr} {promise : Promise}
    (hpromises : Signature.Promises declared promise outputs)
    (hleaves : promise.Leaves base returned after) :
    pushReturned outputs base returned = .ok after ↔ promise.IsKept outputs returned := by
  cases hpromises with
  | unannotated | nothing | nothingClass | stack | single =>
    cases hleaves
    exact iff_of_true rfl nofun
  | @tuple declared types hitems =>
    obtain ⟨⟩ | ⟨⟩ | ⟨-, items⟩ := hleaves
    -- Only the number of types decides what is pushed, whatever the elements are.
    match types with
    | [] =>
      have hpushed : pushReturned (some []) base (.tuple items) = .ok (.stack base) := rfl
      rw [hpushed]
      constructor
      · rintro h - _ ⟨⟩
        have hbase := HostValue.stack.inj (Except.ok.inj h)
        have hnone := List.reverse_eq_nil_iff.mp (List.self_eq_append_left.mp hbase)
        exact ⟨nofun, fun _ => congrArg some hnone⟩
      · intro h
        obtain ⟨-, hnone⟩ := h rfl [] rfl
        rw [Option.some.inj (hnone rfl)]
        rfl
    | [t] =>
      refine iff_of_false (fun h => ?_) fun h => (h rfl [t] rfl).1 rfl
      exact HostValue.tuple_cons_ne items base (HostValue.stack.inj (Except.ok.inj h)).symm
    | t :: t' :: types =>
      refine iff_of_true (pushReturned_elements rfl) ?_
      rintro - _ ⟨⟩
      exact ⟨by rw [List.length_cons, List.length_cons]; omega, nofun⟩

/-- The effect of a call on the depth is what is reported, if there is an element for each type
    where there are several. -/
theorem length_pushReturned {types : List CellType} {values : List HostValue}
    (hpushed : pushReturned (some types) base returned = .ok (.stack values))
    (hitems : ∀ items, returned.elements? = some items → 2 ≤ types.length →
      items.length = types.length) : values.length = base.length + types.length := by
  match types with
  | [] =>
    cases hpushed
    rfl
  | [t] =>
    cases hpushed
    rfl
  | t :: t' :: types =>
    cases helements : returned.elements? with
    | none =>
      rw [pushReturned, helements] at hpushed
      cases hpushed
    | some items =>
      rw [pushReturned_elements helements] at hpushed
      cases hpushed
      have hcount := hitems items helements (by rw [List.length_cons, List.length_cons]; omega)
      rw [List.length_append, List.length_reverse, hcount, Nat.add_comm]

end

/-! ## Calls -/

variable {types : List CellType} {call : List Cell → Except Trouble HostValue} {token : String}
  {stack base : Stack} {args : List Cell}

theorem popOperands_eq {count : Nat} {args : List Cell} {stack : Stack}
    (h : count ≤ stack.length) :
    popOperands count args stack = ((stack.take count).reverse ++ args, stack.drop count) := by
  induction count generalizing args stack with
  | zero => rfl
  | succ count ih =>
    cases stack with
    | nil => cases h
    | cons cell base =>
      rw [popOperands, ih (Nat.le_of_succ_le_succ h), List.take_succ_cons, List.reverse_cons,
        List.append_assoc]
      rfl

/-- Every way of taking off the operands gives the function the same cells, and leaves the same
    ones. -/
theorem callOnOperands_eq :
    callOnOperands types outputs call token stack
      = match checkInputs token types stack with
        | .error failure => .error (.failure failure)
        | .ok () =>
          concluded outputs token (stack.drop types.length)
            (call (stack.take types.length).reverse) := by
  unfold callOnOperands
  split
  · rfl
  · rename_i t
    cases hcheck : checkInputs token [t] stack with
    | error failure => rfl
    | ok =>
      cases stack with
      | nil => cases hcheck
      | cons a base => rfl
  · rename_i t t'
    cases hcheck : checkInputs token [t, t'] stack with
    | error failure => rfl
    | ok =>
      match stack with
      | [] | [a] => cases hcheck
      | a :: b :: base => rfl
  · cases hcheck : checkInputs token types stack with
    | error failure => rfl
    | ok =>
      have hdeep := (checkInputs_ok_iff.mp hcheck).length_eq
      rw [List.length_take] at hdeep
      rw [popOperands_eq (by omega), List.append_nil]

/-! ## Runs -/

/-- What a run goes on with behind a call: a stack of cells.  Any other value of the host is not
    followed. -/
def HostValue.toRun (after : HostValue) : Except Error Stack :=
  after.cells?.elim (.error (.fault (.operands ""))) .ok

theorem mapM_cell?_cells (cells : List Cell) :
    (cells.map HostValue.cell).mapM HostValue.cell? = some cells := by
  induction cells with
  | nil => rfl
  | cons c cells ih =>
    rw [List.map_cons, List.mapM_cons, ih]
    rfl

theorem mapM_cell?_reverse (items : List HostValue) :
    items.reverse.mapM HostValue.cell? = (items.mapM HostValue.cell?).map List.reverse := by
  induction items with
  | nil => rfl
  | cons item items ih =>
    rw [List.reverse_cons, List.mapM_append, ih, List.mapM_cons, List.mapM_cons]
    cases item.cell? <;> cases items.mapM HostValue.cell? <;> simp

/-- The cells that are pushed are those that the run goes on with. -/
theorem pushReturned_toRun (returned : HostValue) :
    ((pushReturned outputs (base.map .cell) returned).mapError Error.fault).bind HostValue.toRun
      = match outputCells outputs returned with
        | .ok reply => .ok (match outputs with | some _ => reply.reverse ++ base | none => reply)
        | .error trouble => .error (trouble.error token) := by
  match outputs with
  | none =>
    show HostValue.toRun returned = _
    rw [outputCells, HostValue.toRun]
    cases returned.cells? <;> rfl
  | some [] =>
    show ((base.map HostValue.cell).mapM HostValue.cell?).elim _ _ = _
    rw [mapM_cell?_cells]
    rfl
  | some [t] =>
    show ((returned :: base.map HostValue.cell).mapM HostValue.cell?).elim _ _ = _
    rw [List.mapM_cons, mapM_cell?_cells, outputCells]
    cases returned.cell? <;> rfl
  | some (t :: t' :: types) =>
    cases helements : returned.elements? with
    | none =>
      rw [pushReturned, outputCells, helements]
      rfl
    | some items =>
      rw [pushReturned_elements helements, outputCells, helements]
      dsimp only
      show ((items.reverse ++ base.map HostValue.cell).mapM HostValue.cell?).elim _ _ = _
      rw [List.mapM_append, mapM_cell?_reverse, mapM_cell?_cells]
      cases items.mapM HostValue.cell? <;> rfl

/-- A run goes on with what a call of a registered function leaves, if that is a stack of
    cells. -/
theorem applyNative_calling {signature : Signature} {effect : Effect}
    (heffect : signature.effect = .ok effect) :
    applyNative ⟨effect, (Session.HostFunction.calling signature call).body⟩ token stack
      = (callHost effect call token stack).bind HostValue.toRun := by
  -- What the function is given is the same, so only what it leaves is compared.
  have hleft : ∀ args base,
      (concluded effect.outputs token base (call args)).bind HostValue.toRun
        = match (Session.HostFunction.calling signature call).body args with
          | .ok reply =>
            .ok (match effect.outputs with | some _ => reply.reverse ++ base | none => reply)
          | .error trouble => .error (trouble.error token) := by
    intro args base
    unfold concluded
    simp only [Session.HostFunction.calling, heffect]
    cases call args with
    | error trouble => rfl
    | ok returned => exact pushReturned_toRun returned
  unfold applyNative callHost
  dsimp only
  cases effect.inputs with
  | none => exact (hleft stack stack).symm
  | some types =>
    dsimp only
    rw [callOnOperands_eq]
    cases checkInputs token types stack with
    | error failure => rfl
    | ok => exact (hleft ..).symm

/-! ## The checks -/

/-- Of cells that are looked at top first, the first that is not of its type is reported. -/
theorem firstMismatch?_of_refused {front : List CellType} {cells : List Cell} {t : CellType}
    {cell : Cell} (hfront : Fits front cells) (hcell : t.accepts cell = false) (position : Nat)
    (more : List CellType) (rest : List Cell) :
    firstMismatch? position (front ++ t :: more) (cells ++ cell :: rest)
      = some (position + front.length, t, cell) := by
  induction hfront generalizing position with
  | nil =>
    rw [List.nil_append, List.nil_append, firstMismatch?, hcell]
    rfl
  | @cons expected other front cells hother _ ih =>
    rw [List.cons_append, List.cons_append, firstMismatch?, if_pos hother, ih, List.length_cons,
      Nat.add_assoc, Nat.add_comm 1]

/-- A list read from its end, in three parts. -/
theorem reverse_eq_at {α : Type} {xs : List α} {i : Nat} (hi : i < xs.length) :
    xs.reverse = (xs.drop (i + 1)).reverse ++ xs[i] :: (xs.take i).reverse := by
  have hparts : xs = xs.take i ++ xs[i] :: xs.drop (i + 1) := by
    rw [← List.drop_eq_getElem_cons hi, List.take_append_drop]
  have hreverse := congrArg List.reverse hparts
  rwa [List.reverse_append, List.reverse_cons, List.append_assoc, List.singleton_append]
    at hreverse

/-- The check meets the cell of each parameter with the type of the parameter.  It reports the
    last parameter whose cell is refused, by its place from the top. -/
theorem checkInputs_of_refused {i : Nat} {t : CellType} {cell : Cell}
    (hlength : args.length = types.length) (ht : types[i]? = some t) (hcell : args[i]? = some cell)
    (hrefused : t.accepts cell = false) (hlater : Fits (types.drop (i + 1)) (args.drop (i + 1))) :
    checkInputs token types.reverse (args.reverse ++ base)
      = .error (.onStack token (args.reverse ++ base)
          (.wrongType token t (types.length - i) cell)) := by
  obtain ⟨hi, rfl⟩ := List.getElem?_eq_some_iff.mp ht
  obtain ⟨hi', rfl⟩ := List.getElem?_eq_some_iff.mp hcell
  have hdeep : types.reverse.length ≤ (args.reverse ++ base).length := by
    rw [List.length_append, List.length_reverse, List.length_reverse]
    omega
  -- Seen from the top, the later parameters come first.
  have hmismatch := firstMismatch?_of_refused (List.forall₂_reverse_iff.mpr hlater) hrefused 1
    (types.take i).reverse ((args.take i).reverse ++ base)
  rw [← reverse_eq_at hi, ← List.cons_append, ← List.append_assoc, ← reverse_eq_at hi',
    List.length_reverse, List.length_drop] at hmismatch
  have hposition : 1 + (types.length - (i + 1)) = types.length - i := by omega
  rw [checkInputs_of_deep token hdeep, hmismatch, hposition]
  rfl

theorem checkInputs_of_accepted (h : Fits types args) :
    checkInputs token types.reverse (args.reverse ++ base) = .ok () := by
  have htake : (args.reverse ++ base).take types.reverse.length = args.reverse := by
    rw [List.length_reverse, h.length_eq, ← List.length_reverse, List.take_left]
  rw [checkInputs_ok_iff, htake]
  exact List.forall₂_reverse_iff.mpr h

/-- A parameter whose cell is not of its type, while the cells of all parameters behind it are. -/
structure LastRefused (types : List CellType) (args : List Cell) (i : Nat) (t : CellType)
    (cell : Cell) : Prop where
  type : types[i]? = some t
  operand : args[i]? = some cell
  refused : t.accepts cell = false
  later : Fits (types.drop (i + 1)) (args.drop (i + 1))

/-- If not all cells are of their types, there is a last one that is not. -/
theorem exists_lastRefused (hlength : args.length = types.length) (h : ¬Fits types args) :
    ∃ i t cell, LastRefused types args i t cell := by
  induction types generalizing args with
  | nil =>
    obtain rfl := List.length_eq_zero_iff.mp hlength
    exact absurd .nil h
  | cons t types ih =>
    cases args with
    | nil => cases hlength
    | cons cell args =>
      have hrest : args.length = types.length := Nat.succ.inj hlength
      by_cases hfits : Fits types args
      · have hcell : ¬t.accepts cell = true := fun hcell => h (.cons hcell hfits)
        exact ⟨0, t, cell, rfl, rfl, Bool.not_eq_true _ ▸ hcell, hfits⟩
      · obtain ⟨i, t', cell', htype, hoperand, hrefused, hlater⟩ := ih hrest hfits
        exact ⟨i + 1, t', cell', htype, hoperand, hrefused, hlater⟩

/-! ## Registered functions -/

/-- The law of a call on operands, given in the order of the parameters, and the cells below
    them.  If a cell is not of the type of its parameter, this is the error, whatever the
    function does; else the outcome is that of the function called with the operands. -/
theorem callHost_law {effect : Effect} (hinputs : effect.inputs = some types.reverse)
    (call : List Cell → Except Trouble HostValue) (token : String) (base : Stack)
    (hlength : args.length = types.length) :
    (∀ i t cell, LastRefused types args i t cell →
      callHost effect call token (args.reverse ++ base)
        = .error (.failure (.onStack token (args.reverse ++ base)
            (.wrongType token t (types.length - i) cell)))) ∧
    (Fits types args →
      callHost effect call token (args.reverse ++ base)
        = concluded effect.outputs token base (call args)) := by
  rw [callHost, hinputs]
  dsimp only
  -- The check sees the types and the cells top first, both in the reverse of the parameters.
  rw [callOnOperands_eq]
  constructor
  · intro i t cell h
    rw [checkInputs_of_refused hlength h.type h.operand h.refused h.later]
  · intro h
    have htake : (args.reverse ++ base).take types.reverse.length = args.reverse := by
      rw [List.length_reverse, ← hlength, ← List.length_reverse, List.take_left]
    have hdrop : (args.reverse ++ base).drop types.reverse.length = base := by
      rw [List.length_reverse, ← hlength, ← List.length_reverse, List.drop_left]
    rw [checkInputs_of_accepted h, htake, hdrop, List.reverse_reverse]

/-- A function whose signature has a stack effect is registered under any name. -/
theorem Session.register_of_effect (session : Session) (name : String) {function : HostFunction}
    {effect : Effect} (heffect : function.signature.effect = .ok effect) :
    session.register name function
      = .ok { session with
          library := session.library.register name (.native ⟨effect, function.body⟩) } := by
  simp only [register, heffect]

/-- What a call leaves that handed back a value: what the annotation promises, exactly if the
    promise is kept, and as many values as are reported.  A single output is the value itself,
    and without outputs there is nothing of it. -/
structure HostValue.Settles (returned : HostValue) (effect : Effect) (promise : Promise)
    (stack base : Stack) (result : Except Error HostValue) : Prop where
  promised : ∀ after, promise.Leaves (base.map .cell) returned after →
    (result = .ok after ↔ promise.IsKept effect.outputs returned)
  single : ∀ type, effect.outputs = some [type] →
    result = .ok (.stack (returned :: base.map .cell))
  none : effect.outputs = some [] → result = .ok (.stack (base.map .cell))
  depth : ∀ types values, effect.outputs = some types → result = .ok (.stack values) →
    (∀ items, returned.elements? = some items → 2 ≤ types.length → items.length = types.length) →
      (values.length : Int) = stack.length - effect.arity + effect.valency

/-- A call that handed back a value settles what its annotation promises. -/
theorem settles_of_promises {effect : Effect} {promise : Promise} {declared : Option TypeExpr}
    (hpromises : Signature.Promises declared promise effect.outputs)
    (harity : effect.arity = args.length) (returned : HostValue) :
    returned.Settles effect promise (args.reverse ++ base) base
      (concluded effect.outputs token base (.ok returned)) := by
  have hpushed : ∀ after, concluded effect.outputs token base (.ok returned) = .ok after
      ↔ pushReturned effect.outputs (base.map .cell) returned = .ok after := by
    intro after
    rw [concluded]
    cases pushReturned effect.outputs (base.map .cell) returned <;> simp [Except.mapError]
  refine ⟨fun after hleaves => ?_, fun type houtputs => ?_, fun houtputs => ?_,
    fun types values houtputs hresult hitems => ?_⟩
  · rw [hpushed, leaves_iff hpromises hleaves]
  · rw [hpushed, houtputs]
    rfl
  · rw [hpushed, houtputs]
    rfl
  · rw [hpushed, houtputs] at hresult
    have hlength := length_pushReturned hresult hitems
    have hvalency : effect.valency = types.length := by rw [Effect.valency, houtputs]
    rw [List.length_map] at hlength
    rw [harity, hvalency, hlength, List.length_append, List.length_reverse]
    omega

/-- Functions of the host receive their operands in the order of the parameters.  A function
    whose signature is accepted, unless its only operand is the stack, is registered with the
    stack effect that is reported: one input for each parameter, listed from the last to the
    first, and the outputs that the annotation of the result promises, listed from the last to
    the first.  On a stack with as many cells as there are parameters, every cell is checked
    against the annotation of its own parameter before the call, and the function is called with
    the cells, deepest first.  What it hands back is left on the cells below as the annotation
    promises, unless that is a tuple of one type, or a tuple without types and there are
    elements. -/
theorem host_function_operands (session : Session) (name : String) (signature : Signature)
    (effect : Effect) (heffect : signature.effect = .ok effect) (hform : ¬signature.TakesStack)
    (call : List Cell → Except Trouble HostValue) :
    ∃ types promise registered,
      session.register name (.calling signature call) = .ok registered ∧
      registered.library.functions.get? name
        = some (.native ⟨effect, (Session.HostFunction.calling signature call).body⟩) ∧
      List.Forall₂ (fun p t => Signature.operandType p = .ok t) signature.operands types ∧
      effect.arity = signature.operands.length ∧ effect.inputTypes = types.reverse ∧
      Signature.Promises signature.result promise effect.outputs ∧
      effect.valency = effect.outputs.elim (-1) (fun outs => (outs.length : Int)) ∧
      effect.outputTypes = effect.outputs.elim [.any] List.reverse ∧
      ∀ token args base m, args.length = types.length →
        applyFunction (.native ⟨effect, (Session.HostFunction.calling signature call).body⟩) token
            (args.reverse ++ base) m
          = ((callHost effect call token (args.reverse ++ base)).bind HostValue.toRun, m) ∧
        ((∃ i t cell, LastRefused types args i t cell ∧
            callHost effect call token (args.reverse ++ base)
              = .error (.failure (.onStack token (args.reverse ++ base)
                  (.wrongType token t (types.length - i) cell)))) ∨
          Fits types args ∧
            (∀ trouble, call args = .error trouble →
              callHost effect call token (args.reverse ++ base) = .error (trouble.error token)) ∧
            ∀ returned, call args = .ok returned →
              returned.Settles effect promise (args.reverse ++ base) base
                (callHost effect call token (args.reverse ++ base))) := by
  obtain ⟨types, promise, htypes, hinputs, hpromises⟩ := Signature.exists_types heffect hform
  have hregister : session.register name (.calling signature call) = .ok _ :=
    session.register_of_effect name heffect
  have hfound := Table.get?_set session.library.functions name name
    (Function.native ⟨effect, (Session.HostFunction.calling signature call).body⟩)
  rw [if_pos rfl] at hfound
  have harity : effect.arity = types.length := by
    rw [Effect.arity, hinputs]
    exact congrArg Int.ofNat List.length_reverse
  refine ⟨types, promise, _, hregister, hfound, htypes, ?_, ?_, hpromises, ?_, ?_, ?_⟩
  · rw [harity, htypes.length_eq]
  · rw [Effect.inputTypes, hinputs]
    rfl
  · rw [Effect.valency]
    cases effect.outputs <;> rfl
  · rw [Effect.outputTypes]
    cases effect.outputs <;> rfl
  · intro token args base m hlength
    obtain ⟨hrefused, haccepted⟩ := callHost_law hinputs call token base hlength
    refine ⟨congrArg (·, m) (applyNative_calling heffect), ?_⟩
    by_cases hfits : Fits types args
    · refine .inr ⟨hfits, fun trouble htrouble => ?_, fun returned hreturned => ?_⟩
      · rw [haccepted hfits, htrouble]
        rfl
      · rw [haccepted hfits, hreturned]
        exact settles_of_promises hpromises (by rw [harity, hlength]) returned
    · obtain ⟨i, t, cell, hlast⟩ := exists_lastRefused hlength hfits
      exact .inl ⟨i, t, cell, hlast, hrefused i t cell hlast⟩

/-- Of three operands the third and the first. -/
def outerOperands : List Cell → Except Trouble HostValue
  | [first, _, third] => .ok (.tuple [.cell third, .cell first])
  | _ => .error (.fault (.operands ""))

/-- A text, a real or a text, and anything, and a number that need not be given. -/
def outerSignature : Signature :=
  ⟨[⟨.positional, false, some (.plain .text)⟩,
      ⟨.positional, false, some (.plain (.union [⟨"float", true, false⟩, .text]))⟩,
      ⟨.positional, false, none⟩, ⟨.positional, true, some (.plain .real)⟩],
    some (.tuple [.plain .cell, .plain .text])⟩

/-- The effect of the signature. -/
def outerEffect : Effect :=
  ⟨some [.any, .union [⟨"float", true, false⟩, .text], .text], some [.cell, .text]⟩

/-- The deepest of three cells is the first operand and comes out on top; if it is no text, it is
    the third from the top that is refused. -/
theorem host_function_operands_three :
    ∃ registered,
      (Session.fresh .default).register "outer" (.calling outerSignature outerOperands)
        = .ok registered ∧
      ∀ m, applyFunction (.native ⟨outerEffect,
            (Session.HostFunction.calling outerSignature outerOperands).body⟩) "outer"
          ([.text "a", .number 2, .text "c"].reverse ++ [.number 0]) m
        = (.ok [.text "a", .text "c", .number 0], m) ∧
      applyFunction (.native ⟨outerEffect,
            (Session.HostFunction.calling outerSignature outerOperands).body⟩) "outer"
          ([.number 1, .text "b", .text "c"].reverse ++ [.number 0]) m
        = (.error (.failure (.onStack "outer" [.text "c", .text "b", .number 1, .number 0]
            (.wrongType "outer" .text 3 (.number 1)))), m) := by
  have hform : ¬outerSignature.TakesStack := by
    rintro ⟨p, declared, hoperands, -⟩
    cases hoperands
  obtain ⟨types, promise, registered, hregister, -, htypes, -, -, -, -, -, hlaw⟩ :=
    host_function_operands (Session.fresh .default) "outer" outerSignature outerEffect rfl hform
      outerOperands
  obtain rfl : types = [.text, .union [⟨"float", true, false⟩, .text], .any] := by
    match htypes with
    | .cons hfirst (.cons hsecond (.cons hthird .nil)) =>
      cases hfirst
      cases hsecond
      cases hthird
      rfl
  refine ⟨registered, hregister, fun m => ⟨?_, ?_⟩⟩
  · exact (hlaw "outer" [.text "a", .number 2, .text "c"] [.number 0] m rfl).1
  · exact (hlaw "outer" [.number 1, .text "b", .text "c"] [.number 0] m rfl).1

/-- A number in a tuple. -/
def boxed : List Cell → Except Trouble HostValue
  | [c] => .ok (.tuple [.cell c])
  | _ => .error (.fault (.operands ""))

/-- A tuple with one type is promised to be pushed by its element, and is pushed itself. -/
theorem host_function_tuple_unopened :
    ¬∀ (signature : Signature) (effect : Effect), signature.effect = .ok effect →
      ¬signature.TakesStack → ∀ call promise,
        Signature.Promises signature.result promise effect.outputs →
          ∀ token args base returned after, args.length = signature.operands.length →
            checkInputs token effect.inputTypes (args.reverse ++ base) = .ok () →
            call args = .ok returned → promise.Leaves (base.map .cell) returned after →
              callHost effect call token (args.reverse ++ base) = .ok after := by
  intro always
  have hform : ¬(⟨[⟨.positional, false, some (.plain .real)⟩],
      some (.tuple [.plain .real])⟩ : Signature).TakesStack := by
    rintro ⟨p, declared, hoperands, hdeclared, hstack⟩
    cases hoperands
    cases hdeclared
    cases hstack
  have hpushed := always _ ⟨some [.real], some [.real]⟩ rfl hform boxed .elements
    (.tuple (.cons rfl .nil)) "boxed" [.number 3] [] (.tuple [.cell (.number 3)])
    (.stack [.cell (.number 3)]) rfl rfl rfl (.elements [] [.cell (.number 3)])
  cases hpushed

end StackCalc
