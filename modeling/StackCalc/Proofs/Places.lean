/-
  StackCalc.Proofs.Places

  Programs apart from where they stand.  `Node.relocate` moves every place in a program; the
  assembly of moved tokens is the moved program (`assemble_relocate`), so a program that is
  assembled from words knows no places but those of its words.  The program without places
  depends on the words alone.
-/

import StackCalc.Library
import StackCalc.Proofs.Reconstruction
import StackCalc.Proofs.Scanning

namespace StackCalc

variable {f : Place → Place}

/-! ## Moving places -/

namespace Node

mutual

/-- A node with every place in it moved. -/
def relocate (f : Place → Place) : Node → Node
  | cell c => cell c
  | word name place => word name (f place)
  | block body combinator place => block (relocateAll f body) combinator (f place)
  | branch test consequent alternative place =>
    branch test (relocateAll f consequent) (relocateAll f alternative) (f place)
  | store name place => store name (f place)
  | fetch name place => fetch name (f place)

/-- All nodes of a list with every place in them moved. -/
def relocateAll (f : Place → Place) : List Node → List Node
  | [] => []
  | node :: rest => relocate f node :: relocateAll f rest

end

theorem relocateAll_eq_map (nodes : List Node) :
    relocateAll f nodes = nodes.map (relocate f) := by
  induction nodes with
  | nil => rw [relocateAll]; rfl
  | cons node rest ih => rw [relocateAll, ih]; rfl

end Node

/-- A token with its place moved, whose lines no longer count for the extent of a program. -/
def Token.relocate (f : Place → Place) (x : Token) : Token :=
  { x with lines := none, place := f x.settled }

@[simp] theorem Token.kind_relocate (x : Token) : (x.relocate f).kind = x.kind := rfl

@[simp] theorem Token.text_relocate (x : Token) : (x.relocate f).text = x.text := rfl

@[simp] theorem Token.settled_relocate (x : Token) : (x.relocate f).settled = f x.settled := rfl

namespace Assembly

/-- An open construct with every place in it moved. -/
def Pending.relocate (f : Place → Place) (pending : Pending) : Pending :=
  { pending with before := Node.relocateAll f pending.before, place := f pending.place }

/-- A directive with its place moved. -/
def Directive.relocate (f : Place → Place) (directive : Directive) : Directive :=
  { directive with place := f directive.place }

/-- The state of an assembly with every place in it moved, and another extent. -/
def State.relocate (f : Place → Place) (extent : Extent) (state : State) : State :=
  { output := Node.relocateAll f state.output
    pending := state.pending.map (Pending.relocate f)
    directive := state.directive.map (Directive.relocate f)
    extent := extent }

variable {state next : State} {x : Token} {extent : Extent}

theorem Directive.node_relocate (directive : Directive) (name : String) :
    (directive.relocate f).node name = (directive.node name).relocate f := by
  obtain ⟨keyword, stores, place⟩ := directive
  cases stores
  · simp [node, relocate, Node.relocate]
  · simp [node, relocate, Node.relocate]

theorem State.push_relocate (node : Node) :
    (state.push node).relocate f extent = (state.relocate f extent).push (node.relocate f) := by
  simp [push, relocate, Node.relocateAll]

theorem State.openWith_relocate (opener : Opener) :
    (state.openWith opener x).relocate f extent
      = (state.relocate f extent).openWith opener (x.relocate f) := by
  simp [openWith, relocate, Pending.relocate, Node.relocateAll]

theorem State.closeBlock_relocate (h : state.closeBlock x = .ok next) :
    (state.relocate f extent).closeBlock (x.relocate f) = .ok (next.relocate f extent) := by
  unfold closeBlock at h
  split at h
  · rename_i hpending
    cases h
    simp [closeBlock, relocate, hpending, Pending.relocate, Node.relocateAll_eq_map,
      Node.relocate]
  · cases h
  · cases h

theorem State.closeTest_relocate (h : state.closeTest x = .ok next) :
    (state.relocate f extent).closeTest (x.relocate f) = .ok (next.relocate f extent) := by
  unfold closeTest at h
  split at h
  · rename_i hpending
    cases h
    simp [closeTest, relocate, hpending, Pending.relocate, Node.relocateAll_eq_map,
      Node.relocate]
  · rename_i hpending
    cases h
    simp [closeTest, relocate, hpending, Pending.relocate, Node.relocateAll_eq_map,
      Node.relocate]
  · cases h

/-- A moved token does to a moved state what the token does to the state. -/
theorem State.item_relocate (h : state.item x = .ok next) :
    (state.relocate f extent).item (x.relocate f) = .ok (next.relocate f extent) := by
  unfold item at h ⊢
  rw [Token.kind_relocate, Token.text_relocate]
  cases hkind : x.kind with
  | number =>
    simp only [hkind] at h
    split at h
    · cases h
      simp only [push_relocate, Node.relocate]
    · cases h
  | symbol | word =>
    simp only [hkind] at h
    cases h
    simp only [push_relocate, Node.relocate, Token.settled_relocate]
  | store | fetch =>
    simp only [hkind] at h
    cases h
    rfl
  | blockOpen | test | blockClose =>
    simp only [hkind] at h
    cases h
    simp only [openWith_relocate]
  | alternative =>
    simp only [hkind] at h
    split at h
    · rename_i before text place rest hpending
      cases h
      have hmoved : (state.relocate f extent).pending
          = ⟨Node.relocateAll f before, .test, text, f place⟩ :: rest.map (Pending.relocate f) := by
        simp [relocate, hpending, Pending.relocate]
      simp only [hmoved, openWith_relocate]
    · cases h
  | combinator =>
    simp only [hkind] at h
    exact closeBlock_relocate h
  | testEnd =>
    simp only [hkind] at h
    exact closeTest_relocate h
  | definitionStart | definitionEnd | foreign =>
    simp only [hkind] at h
    cases h

theorem State.step_relocate (h : state.step x = .ok next) :
    (state.relocate f extent).step (x.relocate f) = .ok (next.relocate f extent) := by
  obtain ⟨output, pending, directive, lines⟩ := state
  cases directive with
  | none =>
    rw [step_item] at h
    have hmoved : (State.relocate f extent ⟨output, pending, none, lines⟩).step (x.relocate f)
        = (State.relocate f extent ⟨output, pending, none, widened lines x⟩).item (x.relocate f) :=
      step_item
    rw [hmoved]
    exact item_relocate h
  | some directive =>
    -- Behind a directive only a name is read.
    by_cases hx : x.kind = .word
    · rw [step_name hx] at h
      cases h
      have hmoved : (State.relocate f extent ⟨output, pending, some directive, lines⟩).step
            (x.relocate f)
          = .ok ⟨(directive.relocate f).node x.text :: Node.relocateAll f output,
              pending.map (Pending.relocate f), none, extent⟩ := step_name hx
      rw [hmoved, Directive.node_relocate]
      simp [relocate, Node.relocateAll]
    · unfold step at h
      split at h
      all_goals simp [hx] at h

theorem foldlM_relocate {xs : List Token} (h : xs.foldlM State.step state = .ok next) :
    (xs.map (Token.relocate f)).foldlM State.step (state.relocate f extent)
      = .ok (next.relocate f extent) := by
  induction xs generalizing state with
  | nil =>
    cases h
    rfl
  | cons x rest ih =>
    rw [List.foldlM_cons] at h
    cases hstep : state.step x with
    | error error =>
      rw [hstep] at h
      cases h
    | ok between =>
      rw [hstep] at h
      rw [List.map_cons, foldlM_of_step (State.step_relocate hstep)]
      exact ih h

theorem State.finish_relocate {program : Program} (h : state.finish = .ok program) :
    (state.relocate f extent).finish = .ok ⟨Node.relocateAll f program.nodes, extent⟩ := by
  unfold finish at h ⊢
  split at h
  · rename_i hclosed
    cases h
    have hmoved : ((state.relocate f extent).pending.isEmpty
        && (state.relocate f extent).directive.isNone) = true := by
      rw [← hclosed]
      simp [relocate]
    rw [if_pos hmoved]
    simp [relocate, Node.relocateAll_eq_map]
  · cases h

end Assembly

/-- Moved tokens make the moved program. -/
theorem assemble_relocate {xs : List Token} {before after : Extent} {program : Program}
    (h : assemble xs before = .ok program) :
    assemble (xs.map (Token.relocate f)) after = .ok ⟨Node.relocateAll f program.nodes, after⟩ := by
  unfold assemble at h ⊢
  cases hrun : xs.foldlM Assembly.State.step (Assembly.State.start before) with
  | error error =>
    rw [hrun] at h
    cases h
  | ok final =>
    rw [hrun] at h
    have hstart : Assembly.State.start after
        = (Assembly.State.start before).relocate f after := by
      simp [Assembly.State.start, Assembly.State.relocate, Node.relocateAll]
    rw [hstart, Assembly.foldlM_relocate hrun]
    exact Assembly.State.finish_relocate h

/-! ## Leaving places out -/

/-- The nodes of a program without their places. -/
def Node.unplacedAll (nodes : List Node) : List Node :=
  relocateAll (fun _ => .unknown) nodes

/-- A program without its places and its extent. -/
def Program.unplaced (program : Program) : Program :=
  ⟨Node.unplacedAll program.nodes, .empty none⟩

theorem Node.unplacedAll_append (p q : List Node) :
    unplacedAll (p ++ q) = unplacedAll p ++ unplacedAll q := by
  simp only [unplacedAll, relocateAll_eq_map, List.map_append]

section

variable {name name' : Option String} {words words' : List Lexeme} {x x' : Lexeme}

/-- A token without its place depends on the word without its place. -/
theorem Lexeme.token_unplaced (h : x.unplaced = x'.unplaced) :
    (x.token name).relocate (fun _ => .unknown) = (x'.token name').relocate fun _ => .unknown := by
  obtain ⟨kind, text, line, column⟩ := x
  obtain ⟨kind', text', line', column'⟩ := x'
  cases h
  rfl

theorem tokens_unplaced (h : words.map Lexeme.unplaced = words'.map Lexeme.unplaced) :
    (words.map (Lexeme.token name)).map (Token.relocate fun _ => .unknown)
      = (words'.map (Lexeme.token name')).map (Token.relocate fun _ => .unknown) := by
  induction words generalizing words' with
  | nil =>
    obtain rfl := List.map_eq_nil_iff.mp h.symm
    rfl
  | cons x rest ih =>
    obtain ⟨x', rest', rfl, hx, hrest⟩ := List.map_eq_cons_iff.mp h.symm
    rw [List.map_cons, List.map_cons, List.map_cons, List.map_cons, ih hrest.symm]
    exact congrArg (· :: _) (Lexeme.token_unplaced hx.symm)

/-- The same words make the same program, apart from places. -/
theorem assemble_unplaced {extent extent' : Extent} {program program' : Program}
    (hwords : words.map Lexeme.unplaced = words'.map Lexeme.unplaced)
    (h : assemble (words.map (Lexeme.token name)) extent = .ok program)
    (h' : assemble (words'.map (Lexeme.token name')) extent' = .ok program') :
    program.unplaced = program'.unplaced := by
  have hmoved : assemble ((words.map (Lexeme.token name)).map (Token.relocate fun _ => .unknown))
      (.empty none) = .ok program.unplaced := assemble_relocate h
  rw [tokens_unplaced hwords, assemble_relocate h'] at hmoved
  exact (Except.ok.inj hmoved).symm

end

/-! ## Tables and libraries -/

namespace Table

variable {α β : Type}

/-- A table with a function applied to its values. -/
def map (g : α → β) (table : Table α) : Table β :=
  ⟨table.entries.map fun entry => (entry.1, g entry.2)⟩

theorem get?_map (g : α → β) (table : Table α) (name : String) :
    (table.map g).get? name = (table.get? name).map g := by
  obtain ⟨entries⟩ := table
  simp only [get?, map]
  induction entries with
  | nil => rfl
  | cons entry rest ih =>
    simp only [List.map_cons, find?]
    split
    · rfl
    · exact ih

theorem contains_map (g : α → β) (table : Table α) (name : String) :
    (table.map g).contains name = table.contains name := by
  rw [contains, contains, get?_map, Option.isSome_map]

theorem map_set (g : α → β) (table : Table α) (name : String) (value : α) :
    (table.set name value).map g = (table.map g).set name (g value) := by
  obtain ⟨entries⟩ := table
  simp only [set, map, mk.injEq]
  induction entries with
  | nil => rfl
  | cons entry rest ih =>
    simp only [List.map_cons, replace]
    split
    · rfl
    · rw [List.map_cons, ih]

end Table

/-- A library without the places in its definitions. -/
def Library.unplaced (library : Library) : Library :=
  { library with definitions := library.definitions.map Program.unplaced }

theorem Library.unplaced_define (library : Library) (name : String) (program : Program) :
    (library.define name program).unplaced = library.unplaced.define name program.unplaced := by
  simp only [unplaced, define, Table.map_set]

/-- Whether a definition calls for a remark does not depend on places. -/
theorem Library.warning?_unplaced (library : Library) (name : String) :
    library.unplaced.warning? name = library.warning? name := by
  have hdefinitions := Table.contains_map Program.unplaced library.definitions name
  rw [warning?, warning?, unplaced, hdefinitions]
  rfl

/-! ## Errors -/

/-- A fault of a text without its place. -/
def SourceError.unplaced (fault : SourceError) : SourceError :=
  { fault with name := none, line := none, column := none }

/-- A cause without the place that a fault of a text has. -/
def Cause.unplaced : Cause → Cause
  | source fault => .source fault.unplaced
  | cause => cause

/-- A failure without its place. -/
def Failure.unplaced (failure : Failure) : Failure :=
  { failure with cause := failure.cause.unplaced, place := none }

/-- An error without its place. -/
def Error.unplaced : Error → Error
  | failure x => .failure x.unplaced
  | fault x => .fault x

theorem Failure.unplaced_blamedOn {x y : Failure} (h : x.unplaced = y.unplaced) (token : String)
    (place place' : Option Place) (stack : Stack) :
    (x.blamedOn token place stack).unplaced = (y.blamedOn token place' stack).unplaced := by
  simp only [unplaced, mk.injEq, true_and] at h
  obtain ⟨hcause, htoken, hstack⟩ := h
  simp only [blamedOn, unplaced, hcause, htoken, hstack]

theorem Error.unplaced_blamedOn {x y : Error} (h : x.unplaced = y.unplaced) (token : String)
    (place place' : Option Place) (stack : Stack) :
    (x.blamedOn token place stack).unplaced = (y.blamedOn token place' stack).unplaced := by
  cases x with
  | failure x =>
    cases y with
    | failure y => exact congrArg failure (Failure.unplaced_blamedOn (failure.inj h) ..)
    | fault y => cases h
  | fault x =>
    cases y with
    | failure y => cases h
    | fault y => exact h

end StackCalc
