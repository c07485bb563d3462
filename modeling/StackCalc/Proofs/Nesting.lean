/-
  StackCalc.Proofs.Nesting

  How deep the frames of a program can be nested.  Every call of a definition and every run
  of a block is a frame of its own.  Where no definition can call itself, also not through
  others, a call leaves one definition less to be called, and a block is smaller than the
  program around it: so the frames are no deeper than the nodes of the program and of all
  definitions are many (`Library.AcyclicFrom.nestsWithin`).  That bound has nothing to do
  with stacks and memories, and a run with as many frames ends (`run_of_acyclic`); with
  fewer it may not, however well it would end (`run_of_acyclic_tooDeep`).
-/

import StackCalc.Proofs.Blame
import StackCalc.Proofs.Ending
import StackCalc.Proofs.Faults
import StackCalc.Proofs.Relevance
import Mathlib.Algebra.BigOperators.Group.Finset.Basic
import Mathlib.Logic.Relation

namespace StackCalc

open Relation (ReflTransGen TransGen)

/-! ## The nodes of a program -/

/-- The nodes that stand in a program, also inside of its blocks and in the branches of its
    conditionals. -/
inductive Contains (nodes : List Node) : Node → Prop
  | own {node : Node} (mem : node ∈ nodes) : Contains nodes node
  | block {body : List Node} {combinator : Combinator} {place : Place} {node : Node}
      (outer : Contains nodes (.block body combinator place)) (mem : node ∈ body) :
      Contains nodes node
  | branch {test : Test} {consequent alternative : List Node} {place : Place} {node : Node}
      (outer : Contains nodes (.branch test consequent alternative place))
      (mem : node ∈ consequent ++ alternative) : Contains nodes node

variable {p q nodes body rest front : List Node} {node : Node}

theorem Contains.trans (h : Contains q node) (hq : ∀ x ∈ q, Contains p x) : Contains p node := by
  induction h with
  | own mem => exact hq _ mem
  | block _ mem ih => exact .block ih mem
  | branch _ mem ih => exact .branch ih mem

theorem Node.size_le_of_mem (h : node ∈ nodes) : node.size ≤ Node.sizeAll nodes := by
  induction nodes with
  | nil => cases h
  | cons first rest ih =>
    rw [Node.sizeAll_cons]
    obtain rfl | hrest := List.mem_cons.mp h
    · exact Nat.le_add_right ..
    · exact (ih hrest).trans (Nat.le_add_left ..)

theorem Contains.size_le (h : Contains nodes node) : node.size ≤ Node.sizeAll nodes := by
  induction h with
  | own mem => exact Node.size_le_of_mem mem
  | block _ mem ih =>
    have hbody := Node.size_le_of_mem mem
    rw [Node.size] at ih
    omega
  | branch _ mem ih =>
    have hbranches := Node.size_le_of_mem mem
    rw [Node.size] at ih
    rw [Node.sizeAll_append] at hbranches
    omega

namespace Node

mutual

/-- The names of all words in a node. -/
def words : Node → List String
  | word name _ => [name]
  | block body _ _ => wordsAll body
  | branch _ consequent alternative _ => wordsAll consequent ++ wordsAll alternative
  | cell _ | store .. | fetch .. => []

/-- The names of all words in a program. -/
def wordsAll : List Node → List String
  | [] => []
  | node :: rest => words node ++ wordsAll rest

end

theorem wordsAll_append (p q : List Node) : wordsAll (p ++ q) = wordsAll p ++ wordsAll q := by
  induction p with
  | nil => rw [wordsAll, List.nil_append, List.nil_append]
  | cons first rest ih => rw [List.cons_append, wordsAll, wordsAll, ih, List.append_assoc]

theorem words_subset (h : node ∈ nodes) : node.words ⊆ wordsAll nodes := by
  induction nodes with
  | nil => cases h
  | cons first rest ih =>
    rw [wordsAll]
    obtain rfl | hrest := List.mem_cons.mp h
    · exact List.subset_append_left ..
    · exact List.Subset.trans (ih hrest) (List.subset_append_right ..)

end Node

theorem Contains.words_subset (h : Contains nodes node) : node.words ⊆ Node.wordsAll nodes := by
  induction h with
  | own mem => exact Node.words_subset mem
  | block _ mem ih =>
    rw [Node.words] at ih
    exact List.Subset.trans (Node.words_subset mem) ih
  | branch _ mem ih =>
    rw [Node.words, ← Node.wordsAll_append] at ih
    exact List.Subset.trans (Node.words_subset mem) ih

theorem Contains.mem_words {name : String} {place : Place} (h : Contains nodes (.word name place)) :
    name ∈ Node.wordsAll nodes :=
  h.words_subset (by rw [Node.words]; exact List.mem_singleton_self name)

/-- What a step leaves in the queue stood in it before, if only in a branch. -/
theorem stepNode_contains {setting : Setting} {nested : Nested} {stack next : Stack}
    {m m' : Machine}
    (hstep : stepNode setting nested node stack m = (.ok (next, front), m')) :
    ∀ x ∈ front ++ rest, Contains (node :: rest) x := by
  intro x hx
  obtain hfront | hrest := List.mem_append.mp hx
  · obtain ⟨test, consequent, alternative, place, rfl, hbranch⟩ := stepNode_front hstep hfront
    exact .branch (.own (List.mem_cons_self ..)) hbranch
  · exact .own (List.mem_cons_of_mem _ hrest)

/-! ## Calls -/

namespace Library

/-- The names of definitions among the words of a program, wherever they stand in it. -/
def Names (library : Library) (nodes : List Node) (name : String) : Prop :=
  library.isBuiltin name = false ∧ (library.body? name).isSome
    ∧ ∃ place, Contains nodes (.word name place)

/-- The body of one definition names another one. -/
def Edge (library : Library) (caller callee : String) : Prop :=
  ∃ body, library.body? caller = some body ∧ library.Names body callee

/-- The definitions that a program names, or that they name, and so on. -/
def CanCall (library : Library) (nodes : List Node) (name : String) : Prop :=
  ∃ first, library.Names nodes first ∧ ReflTransGen library.Edge first name

/-- No definition that a program can call can call itself again. -/
def AcyclicFrom (library : Library) (nodes : List Node) : Prop :=
  ∀ name, library.CanCall nodes name → ¬TransGen library.Edge name name

/-- The number of nodes in the definition of a name. -/
def weight (library : Library) (name : String) : Nat :=
  ((library.body? name).map Node.sizeAll).getD 0

/-- As many frames as a program needs if no definition can call itself: one more than there
    are nodes in the program and in all definitions. -/
def nestingBound (library : Library) (nodes : List Node) : Nat :=
  Node.sizeAll nodes + ∑ name ∈ library.definitions.names.toFinset, library.weight name + 1

variable {library : Library} {name first : String}

theorem mem_names_of_body? (h : library.body? name = some body) :
    name ∈ library.definitions.names.toFinset := by
  obtain ⟨program, hprogram, -⟩ := Option.map_eq_some_iff.mp h
  exact List.mem_toFinset.mpr (List.mem_map.mpr ⟨_, Table.mem_of_find? hprogram, rfl⟩)

theorem weight_of_body? (h : library.body? name = some body) :
    library.weight name = Node.sizeAll body := by
  rw [weight, h, Option.map_some, Option.getD_some]

/-- A word that stands for a definition is no name of a built-in operation. -/
theorem free_of_resolve {called : String} {place : Option Place} {program : Program}
    (h : library.resolve name place = .ok ⟨called, .definition program⟩) :
    library.isBuiltin name = false := by
  cases hbuiltin : library.isBuiltin name with
  | false => rfl
  | true =>
    -- Without its definitions the library would have none for the word either.
    have hfunctions : library.functions = library.forget.functions := rfl
    cases definition_of_resolve ((resolve_of_isBuiltin hfunctions hbuiltin place).symm.trans h)

theorem Names.of_resolve {called : String} {place : Place} {program : Program}
    (hword : Contains nodes (.word name place))
    (h : library.resolve name (some place) = .ok ⟨called, .definition program⟩) :
    library.Names nodes name ∧ library.body? name = some program.nodes := by
  have hbody : library.body? name = some program.nodes := by
    rw [body?, definition_of_resolve h, Option.map_some]
  exact ⟨⟨free_of_resolve h, by rw [hbody]; rfl, place, hword⟩, hbody⟩

theorem CanCall.of_contains (h : library.CanCall q name) (hq : ∀ x ∈ q, Contains p x) :
    library.CanCall p name := by
  obtain ⟨first, ⟨hfree, hbound, place, hword⟩, hpath⟩ := h
  exact ⟨first, ⟨hfree, hbound, place, hword.trans hq⟩, hpath⟩

theorem CanCall.of_names (h : library.Names nodes name) : library.CanCall nodes name :=
  ⟨name, h, .refl⟩

/-- What the body of a definition can call, the definition calls. -/
theorem CanCall.transGen (h : library.CanCall body name) (hbody : library.body? first = some body) :
    TransGen library.Edge first name := by
  obtain ⟨next, hnext, hpath⟩ := h
  exact .head' ⟨body, hbody, hnext⟩ hpath

theorem CanCall.of_body (h : library.CanCall body name) (hfirst : library.Names nodes first)
    (hbody : library.body? first = some body) : library.CanCall nodes name :=
  ⟨first, hfirst, (h.transGen hbody).to_reflTransGen⟩

/-- Definitions that call only those of lower rank do not call themselves. -/
theorem AcyclicFrom.of_rank (rank : String → Nat)
    (h : ∀ caller callee, library.Edge caller callee → rank callee < rank caller) :
    library.AcyclicFrom nodes := by
  intro name _ hcycle
  have hlt : ∀ {callee}, TransGen library.Edge name callee → rank callee < rank name := by
    intro callee hpath
    induction hpath with
    | single hedge => exact h _ _ hedge
    | tail _ hedge ih => exact (h _ _ hedge).trans ih
  exact Nat.lt_irrefl _ (hlt hcycle)

end Library

/-! ## Nested frames -/

/-- A program whose frame has at most a number of frames nested in each other, itself
    included, whatever its steps find on the stack. -/
def NestsWithin (library : Library) : Nat → List Node → Prop
  | 0, _ => False
  | bound + 1, nodes =>
    ∀ node, Contains nodes node → ∀ body, node.Runs library body → NestsWithin library bound body

variable {library : Library} {bound : Nat}

/-- As long as a program can call only names from a set, and calls none of them inside its
    own call, its frames are no deeper than its nodes and those of all bodies are many. -/
theorem nestsWithin_of_available (available : Finset String)
    (hacyclic : library.AcyclicFrom nodes)
    (havailable : ∀ name, library.CanCall nodes name → name ∈ available)
    (hbound : Node.sizeAll nodes + ∑ name ∈ available, library.weight name < bound) :
    NestsWithin library bound nodes := by
  induction bound generalizing nodes available with
  | zero => omega
  | succ bound ih =>
    intro node hnode body hruns
    have hsize := hnode.size_le
    cases hruns with
    | block _ combinator place =>
      -- A block can call the same names, and has fewer nodes than what it stands in.
      have hinside : ∀ name, library.CanCall body name → library.CanCall nodes name :=
        fun name h => h.of_contains fun x hx => .block hnode hx
      rw [Node.size] at hsize
      exact ih available (fun name h => hacyclic name (hinside name h))
        (fun name h => havailable name (hinside name h)) (by omega)
    | @word name place called program resolved =>
      -- The body of a definition can call the other names only.
      obtain ⟨hname, hbody⟩ := Library.Names.of_resolve hnode resolved
      have hinside : ∀ other, library.CanCall program.nodes other → library.CanCall nodes other :=
        fun other h => h.of_body hname hbody
      have hother : ∀ other, library.CanCall program.nodes other →
          other ∈ available.erase name := by
        intro other h
        refine Finset.mem_erase.mpr ⟨?_, havailable other (hinside other h)⟩
        rintro rfl
        exact hacyclic other (.of_names hname) (h.transGen hbody)
      have hsum := Finset.add_sum_erase available library.weight (havailable name (.of_names hname))
      rw [Library.weight_of_body? hbody] at hsum
      have hpos := Node.size_pos (.word name place)
      exact ih (available.erase name) (fun other h => hacyclic other (hinside other h)) hother
        (by omega)

/-- Without a definition that can call itself frames are nested within the bound. -/
theorem Library.AcyclicFrom.nestsWithin (h : library.AcyclicFrom nodes) :
    NestsWithin library (library.nestingBound nodes) nodes := by
  refine nestsWithin_of_available library.definitions.names.toFinset h ?_ (Nat.lt_succ_self _)
  rintro name ⟨first, hfirst, hpath⟩
  -- A name that can be called is bound: it is the first one, or a body names it.
  have hbound : (library.body? name).isSome := by
    cases hpath with
    | refl => exact hfirst.2.1
    | tail _ hedge =>
      obtain ⟨_, _, hname⟩ := hedge
      exact hname.2.1
  obtain ⟨body, hbody⟩ := Option.isSome_iff_exists.mp hbound
  exact mem_names_of_body? hbody

namespace NestsWithin

theorem pos (h : NestsWithin library bound nodes) : 0 < bound := by
  cases bound with
  | zero => exact h.elim
  | succ bound => exact Nat.succ_pos _

/-- Fewer nodes nest no deeper. -/
theorem of_contains (h : NestsWithin library bound p) (hq : ∀ x ∈ q, Contains p x) :
    NestsWithin library bound q := by
  cases bound with
  | zero => exact h
  | succ bound => exact fun node hnode => h node (hnode.trans hq)

theorem inside (h : NestsWithin library (bound + 1) (node :: rest))
    (hruns : node.Runs library body) : NestsWithin library bound body :=
  h node (.own (List.mem_cons_self ..)) body hruns

theorem behind {setting : Setting} {nested : Nested} {stack next : Stack} {m m' : Machine}
    (h : NestsWithin library bound (node :: rest))
    (hstep : stepNode setting nested node stack m = (.ok (next, front), m')) :
    NestsWithin library bound (front ++ rest) :=
  h.of_contains (stepNode_contains hstep)

end NestsWithin

/-! ## Runs -/

variable {setting : Setting} {stack : Stack} {m m' : Machine}

/-- The frames inside of a frame are not nested deeper than its program nests. -/
theorem Frame.Reaches.depth_lt {f inner : Frame} (h : f.Reaches setting inner)
    (hnests : NestsWithin setting.library bound f.queue) : f.depth < inner.depth + bound := by
  induction h generalizing bound with
  | refl f => have := hnests.pos; omega
  | @advance f g inner advances _ ih =>
    cases advances with
    | step queue succeeded =>
      rw [queue] at hnests
      exact ih (hnests.behind succeeded)
  | @enter f g inner enters _ ih =>
    cases enters with
    | start depth queue starts =>
      cases bound with
      | zero => exact hnests.elim
      | succ bound =>
        rw [queue] at hnests
        have hinner := ih (hnests.inside starts.runs)
        rw [depth]
        dsimp only at hinner
        omega

theorem runFrame_not_tooDeep {nested : Nested} {queue : List Node}
    (hstandard : setting.library.IsStandard)
    (hknown : Throughout setting.library Node.Known queue)
    (hnests : NestsWithin setting.library (bound + 1) queue)
    (hnested : ∀ body, Throughout setting.library Node.Known body →
      NestsWithin setting.library bound body → ∀ s k k',
        nested body s k ≠ (.error (.fault .tooDeep), k')) (step : Nat) :
    runFrame setting nested step queue stack m ≠ (.error (.fault .tooDeep), m') := by
  induction queue using frameInduction generalizing step stack m with
  | nil =>
    rw [runFrame_nil]
    exact nofun
  | cons node rest ih =>
    intro h
    rw [runFrame_cons] at h
    split at h
    · rename_i own k hstep
      cases own with
      | failure failure => cases h
      | fault own =>
        cases h
        obtain ⟨body, s, k', hruns, hrun⟩ | ⟨_, _, trouble, _, _, hsum⟩ :=
          stepNode_fault hstandard hknown.head hstep
        · exact hnested body (hknown.inside hruns) (hnests.inside hruns) s k' _ hrun
        · cases hsum
    · rename_i next front k hstep
      exact ih front (stepNode_size hstep) (hknown.behind hstep) (hnests.behind hstep) _ h

/-- A run does not give up where its frames may be as deep as its program nests. -/
theorem run_not_tooDeep (hstandard : setting.library.IsStandard)
    (hknown : Throughout setting.library Node.Known nodes)
    (hnests : NestsWithin setting.library bound nodes) {depth : Nat} (hdepth : bound ≤ depth) :
    run setting depth nodes stack m ≠ (.error (.fault .tooDeep), m') := by
  induction bound generalizing depth nodes stack m m' with
  | zero => exact hnests.elim
  | succ bound ih =>
    obtain ⟨depth, rfl⟩ := Nat.exists_eq_add_of_lt hdepth
    refine runFrame_not_tooDeep hstandard hknown hnests ?_ 0
    exact fun body hbody hwithin s k k' => ih hbody hwithin (Nat.le_add_right ..)

theorem runFrame_eq_within {nested nested' : Nested} {queue : List Node}
    (hnests : NestsWithin setting.library (bound + 1) queue)
    (hnested : ∀ body, NestsWithin setting.library bound body → nested body = nested' body)
    (step : Nat) (stack : Stack) (m : Machine) :
    runFrame setting nested step queue stack m = runFrame setting nested' step queue stack m := by
  induction queue using frameInduction generalizing step stack m with
  | nil => rw [runFrame_nil, runFrame_nil]
  | cons node rest ih =>
    have hstep := stepNode_congr (Eq.refl setting.config) rfl (fun _ _ _ _ => rfl)
      (fun body hruns => hnested body (hnests.inside hruns)) stack
      (traced setting step (node :: rest) stack m)
    rw [runFrame_cons, runFrame_cons, ← hstep]
    split
    · rfl
    · rename_i next front k hfirst
      exact ih front (stepNode_size hfirst) (hnests.behind hfirst) (step + 1) next k

/-- A run is the same wherever its frames may be as deep as its program nests. -/
theorem run_eq_within (hnests : NestsWithin setting.library bound nodes) {depth depth' : Nat}
    (hdepth : bound ≤ depth) (hdepth' : bound ≤ depth') :
    run setting depth nodes = run setting depth' nodes := by
  induction bound generalizing depth depth' nodes with
  | zero => exact hnests.elim
  | succ bound ih =>
    obtain ⟨depth, rfl⟩ := Nat.exists_eq_add_of_lt hdepth
    obtain ⟨depth', rfl⟩ := Nat.exists_eq_add_of_lt hdepth'
    funext stack m
    exact runFrame_eq_within hnests
      (fun _ hbody => ih hbody (Nat.le_add_right ..) (Nat.le_add_right ..)) 0 stack m

/-! ## Fewer frames -/

/-- Equal machines stay equal. -/
theorem Machine.eq_simulation : Machine.Simulation Eq where
  memory h := congrArg Machine.memory h
  store h _ := by rw [h]
  print h _ := by rw [h]
  draw h := by
    rw [h]
    exact ⟨rfl, rfl⟩

/-- Two ways to run a program have the same outcome, unless the first one gives up because its
    frames are nested too deep. -/
def EqUnlessDeep (first second : Stack → Machine → Reply Stack) : Prop :=
  ∀ stack m, first stack m = second stack m ∨ ∃ k, first stack m = (.error (.fault .tooDeep), k)

theorem runFrame_eqUnlessDeep {nested nested' : Nested} {queue : List Node}
    (hnested : ∀ body, EqUnlessDeep (nested body) (nested' body)) (step : Nat) :
    EqUnlessDeep (runFrame setting nested step queue) (runFrame setting nested' step queue) := by
  have hagree : ∀ body, RunsAgree Error.IsTooDeep Error.none Eq (nested body) (nested' body) := by
    rintro body stack m _ rfl
    obtain hsame | ⟨k, hdeep⟩ := hnested body stack m
    · rw [← hsame]
      exact .same _ rfl
    · exact .left hdeep rfl
  intro stack m
  -- A branch can make the queue longer, but what is left to do gets smaller.
  induction queue using frameInduction generalizing step stack m with
  | nil =>
    rw [runFrame_nil, runFrame_nil]
    exact .inl rfl
  | cons node rest ih =>
    have hnode : Reply.Agree Error.IsTooDeep Error.none Eq
        (stepNode setting nested node stack (traced setting step (node :: rest) stack m))
        (stepNode setting nested' node stack (traced setting step (node :: rest) stack m)) :=
      stepNode_agree Machine.eq_simulation rfl (fun _ _ _ => rfl) (fun body _ => hagree body) stack
        rfl
    rw [runFrame_cons, runFrame_cons]
    obtain ⟨_, k, hfirst, rfl⟩ | ⟨_, _, _, hnone⟩ | ⟨result, k, _, hfirst, hsecond, rfl⟩ := hnode
    · rw [hfirst]
      exact .inr ⟨k, rfl⟩
    · exact hnone.elim
    · rw [hfirst, hsecond]
      match result with
      | .error error => exact .inl rfl
      | .ok (next, front) => exact ih front (stepNode_size hfirst) (step + 1) next k

/-- A run whose frames may be nested less deep gives up, or is the same. -/
theorem run_eqUnlessDeep {depth depth' : Nat} (hdepth : depth ≤ depth') (nodes : List Node) :
    EqUnlessDeep (run setting depth nodes) (run setting depth' nodes) := by
  induction depth generalizing depth' nodes with
  | zero => exact fun _ m => .inr ⟨m, rfl⟩
  | succ depth ih =>
    obtain ⟨depth', rfl⟩ := Nat.exists_eq_add_of_lt hdepth
    exact runFrame_eqUnlessDeep (fun body => ih (Nat.le_add_right ..) body) 0

/-! ## Programs without cycles -/

/-- Where no definition that a program can call can call itself, the frames of the program are
    nested no deeper than a bound that its own nodes and the definitions decide, on every stack
    and every machine.  If that many frames may be nested, or more, the run ends, in the same
    way however many they are: with a stack, with a failure, or because a whole stack that it
    adds up has no sum among the doubles.  If fewer may be nested, it ends in the same way or
    because they are nested too deep. -/
theorem run_of_acyclic (library : Library) (nodes : List Node)
    (hacyclic : library.AcyclicFrom nodes) (config : Config) (verbosity : Nat) (stack : Stack)
    (m : Machine) :
    (∃ result k,
      (∀ depth, library.nestingBound nodes ≤ depth →
          run ⟨library, config, verbosity⟩ depth nodes stack m = (result, k))
        ∧ (∀ depth, run ⟨library, config, verbosity⟩ depth nodes stack m = (result, k)
          ∨ ∃ k', run ⟨library, config, verbosity⟩ depth nodes stack m
            = (.error (.fault .tooDeep), k'))
        ∧ (library.IsStandard → Throughout library Node.Known nodes →
          (∃ last, result = .ok last) ∨ (∃ failure, result = .error (.failure failure))
            ∨ ∃ fault, result = .error (.fault fault) ∧ fault.IsOfSum library nodes))
      ∧ ∀ below inner,
          Frame.Reaches ⟨library, config, verbosity⟩ ⟨below, 0, nodes, stack, m⟩ inner →
            below < inner.depth + library.nestingBound nodes := by
  have hnests := hacyclic.nestsWithin
  refine ⟨?_, fun below inner hreaches => hreaches.depth_lt hnests⟩
  rcases hrun : run ⟨library, config, verbosity⟩ (library.nestingBound nodes) nodes stack m
    with ⟨result, k⟩
  have hdeep : ∀ depth, library.nestingBound nodes ≤ depth →
      run ⟨library, config, verbosity⟩ depth nodes stack m = (result, k) :=
    fun depth hdepth => by rw [run_eq_within hnests hdepth le_rfl, hrun]
  refine ⟨result, k, hdeep, fun depth => ?_, fun hstandard hknown => ?_⟩
  · obtain hfewer | henough := Nat.le_total depth (library.nestingBound nodes)
    · exact (run_eqUnlessDeep hfewer nodes stack m).imp_left (·.trans hrun)
    · exact .inl (hdeep depth henough)
  · match result with
    | .ok last => exact .inl ⟨last, rfl⟩
    | .error (.failure failure) => exact .inr (.inl ⟨failure, rfl⟩)
    | .error (.fault fault) =>
      obtain rfl | hsum := run_fault hstandard hknown hrun
      · exact absurd hrun (run_not_tooDeep hstandard hknown hnests le_rfl)
      · exact .inr (.inr ⟨fault, rfl, hsum⟩)

/-- A library in which a definition for squares calls another one inside of a block. -/
def squaring : Library :=
  (Library.fresh.define "square" ⟨[.word "dup" .unknown, .word "mul" .unknown], .empty none⟩).define
    "squares" ⟨[.block [.word "square" .unknown] .map .unknown], .empty none⟩

theorem squaring_body? {name : String} (h : squaring.body? name = some body) :
    (name = "squares" ∧ body = [.block [.word "square" .unknown] .map .unknown])
      ∨ name = "square" ∧ body = [.word "dup" .unknown, .word "mul" .unknown] := by
  simp only [squaring, Library.body?, Library.define, Library.fresh, Table.get?_set,
    Table.get?_empty] at h
  split at h
  · cases h
    exact Or.inl ⟨‹_›, rfl⟩
  · split at h
    · cases h
      exact Or.inr ⟨‹_›, rfl⟩
    · cases h

theorem squaring_edge {caller callee : String} (h : squaring.Edge caller callee) :
    caller = "squares" ∧ callee = "square" := by
  obtain ⟨body, hbody, hfree, -, place, hword⟩ := h
  have hname := hword.mem_words
  obtain ⟨rfl, rfl⟩ | ⟨rfl, rfl⟩ := squaring_body? hbody
  · simp only [Node.wordsAll, Node.words, List.append_nil, List.mem_singleton] at hname
    exact ⟨rfl, hname⟩
  · -- The words of the inner definition are those of built-in operations.
    have hbuiltin : ∀ word ∈ ["dup", "mul"], squaring.isBuiltin word = true := by decide
    simp only [Node.wordsAll, Node.words, List.append_nil, List.singleton_append] at hname
    rw [hbuiltin callee hname] at hfree
    cases hfree

theorem squaring_acyclic : squaring.AcyclicFrom nodes := by
  refine .of_rank (fun name => if name = "squares" then 1 else 0) fun caller callee hedge => ?_
  obtain ⟨rfl, rfl⟩ := squaring_edge hedge
  decide

theorem squaring_known : Throughout squaring Node.Known [.word "squares" .unknown] := by
  refine Library.throughout_known (fun name program hprogram => ?_) ⟨trivial, trivial⟩
  have hbody : squaring.body? name = some program.nodes := by
    rw [Library.body?, hprogram, Option.map_some]
  obtain ⟨-, hnodes⟩ | ⟨-, hnodes⟩ := squaring_body? hbody
  · rw [hnodes]
    exact ⟨⟨fun _ h => (by cases h), trivial, trivial⟩, trivial⟩
  · rw [hnodes]
    exact ⟨trivial, trivial, trivial⟩

/-- The squares of the cells of any stack take no more than six frames nested in each other. -/
theorem run_of_acyclic_squares :
    squaring.AcyclicFrom [.word "squares" .unknown]
      ∧ squaring.nestingBound [.word "squares" .unknown] = 6
      ∧ ∀ stack m,
        (∃ result k,
          (∀ depth, 6 ≤ depth →
              run ⟨squaring, .default, 0⟩ depth [.word "squares" .unknown] stack m = (result, k))
            ∧ (∀ depth,
              run ⟨squaring, .default, 0⟩ depth [.word "squares" .unknown] stack m = (result, k)
                ∨ ∃ k', run ⟨squaring, .default, 0⟩ depth [.word "squares" .unknown] stack m
                  = (.error (.fault .tooDeep), k'))
            ∧ ((∃ last, result = .ok last) ∨ (∃ failure, result = .error (.failure failure))
              ∨ ∃ fault, result = .error (.fault fault)
                ∧ fault.IsOfSum squaring [.word "squares" .unknown]))
          ∧ ∀ below inner,
              Frame.Reaches ⟨squaring, .default, 0⟩
                  ⟨below, 0, [.word "squares" .unknown], stack, m⟩ inner →
                below < inner.depth + 6 := by
  have hbound : squaring.nestingBound [.word "squares" .unknown] = 6 := by decide
  refine ⟨squaring_acyclic, hbound, fun stack m => ?_⟩
  obtain ⟨⟨result, k, hrun, hfewer, hends⟩, hframes⟩ :=
    run_of_acyclic squaring [.word "squares" .unknown] squaring_acyclic .default 0 stack m
  rw [hbound] at hrun hframes
  exact ⟨⟨result, k, hrun, hfewer, hends rfl squaring_known⟩, hframes⟩

/-! ## A long chain of calls -/

/-- The names of a chain of definitions. -/
def relayName (i : Nat) : String := "w" ++ i.repr

/-- A chain of definitions, each of which calls the one before it. -/
def relay : Nat → Library
  | 0 => Library.fresh.define (relayName 0) ⟨[.cell (.number 1.0)], .empty none⟩
  | i + 1 => (relay i).define (relayName (i + 1)) ⟨[.word (relayName i) .unknown], .empty none⟩

/-- The position of a name in the chain. -/
def relayRank (name : String) : Nat := Nat.ofDigitChars 10 (name.toList.drop 1) 0

@[simp] theorem relayRank_relayName (i : Nat) : relayRank (relayName i) = i := by
  rw [relayRank, relayName, String.toList_append, Nat.toList_repr]
  exact Nat.ofDigitChars_ten_toDigits

theorem relayName_inj {i j : Nat} : relayName i = relayName j ↔ i = j := by
  refine ⟨fun h => ?_, congrArg relayName⟩
  rw [← relayRank_relayName i, h, relayRank_relayName]

theorem relay_functions (last : Nat) : (relay last).functions = Library.fresh.functions := by
  induction last with
  | zero => rfl
  | succ last ih => exact ih

/-- No table of built-in operations has a name of the chain in it. -/
theorem find?_relayName {α : Type} {entries : List (String × α)}
    (h : ∀ entry ∈ entries, entry.1.toList.head? ≠ some 'w') (i : Nat) :
    Table.find? (relayName i) entries = none := by
  cases hfind : Table.find? (relayName i) entries with
  | none => rfl
  | some value =>
    refine absurd ?_ (h _ (Table.mem_of_find? hfind))
    rw [relayName, String.toList_append]
    rfl

theorem relayName_free (last i : Nat) : (relay last).isBuiltin (relayName i) = false := by
  have htarget : Builtin.target (relayName i) = relayName i := by
    rw [Builtin.target, find?_relayName (by decide), Option.getD_none]
  have hfunction : Library.fresh.functions.get? (relayName i) = none :=
    find?_relayName (by decide) i
  have hcommand : Library.command? (relayName i) = none := find?_relayName (by decide) i
  rw [Library.isBuiltin, relay_functions, htarget, Table.contains, hfunction, hcommand]
  rfl

theorem relay_bound {last i : Nat} (h : i < last) :
    (relay last).definitions.get? (relayName (i + 1))
      = some ⟨[.word (relayName i) .unknown], .empty none⟩ := by
  induction last with
  | zero => omega
  | succ last ih =>
    rw [relay, Library.define, Table.get?_set]
    split
    · rename_i hname
      cases relayName_inj.mp hname
      rfl
    · rename_i hname
      exact ih (Nat.lt_of_le_of_ne (Nat.le_of_lt_succ h) fun hi => hname (by rw [hi]))

theorem relay_bodies {last : Nat} {name : String} {program : Program}
    (h : (relay last).definitions.get? name = some program) :
    program.nodes = [.cell (.number 1.0)]
      ∨ ∃ i, name = relayName (i + 1) ∧ program.nodes = [.word (relayName i) .unknown] := by
  induction last with
  | zero =>
    rw [relay, Library.define, Table.get?_set] at h
    split at h
    · cases h
      exact Or.inl rfl
    · cases h
  | succ last ih =>
    rw [relay, Library.define, Table.get?_set] at h
    split at h
    · rename_i hname
      cases h
      exact Or.inr ⟨last, hname, rfl⟩
    · exact ih h

theorem relay_acyclic (last : Nat) : (relay last).AcyclicFrom nodes := by
  refine .of_rank relayRank fun caller callee hedge => ?_
  obtain ⟨body, hbody, -, -, place, hword⟩ := hedge
  obtain ⟨program, hprogram, rfl⟩ := Option.map_eq_some_iff.mp hbody
  have hname := hword.mem_words
  obtain hnodes | ⟨i, rfl, hnodes⟩ := relay_bodies hprogram
  · rw [hnodes] at hname
    cases hname
  · rw [hnodes] at hname
    simp only [Node.wordsAll, Node.words, List.append_nil, List.mem_singleton] at hname
    rw [hname, relayRank_relayName, relayRank_relayName]
    exact Nat.lt_succ_self i

theorem relay_known (last : Nat) :
    Throughout (relay last) Node.Known [.word (relayName last) .unknown] := by
  refine Library.throughout_known (fun name program hprogram => ?_) ⟨trivial, trivial⟩
  obtain hnodes | ⟨i, -, hnodes⟩ := relay_bodies hprogram
  · rw [hnodes]
    exact ⟨trivial, trivial⟩
  · rw [hnodes]
    exact ⟨trivial, trivial⟩

/-- A chain that is longer than frames may be nested is not run to its end. -/
theorem run_relay_tooDeep {last i depth : Nat} (hi : i ≤ last) (hdepth : depth ≤ i)
    (config : Config) (stack : Stack) (m : Machine) :
    ∃ k, run ⟨relay last, config, 0⟩ depth [.word (relayName i) .unknown] stack m
      = (.error (.fault .tooDeep), k) := by
  induction depth generalizing i m with
  | zero => exact ⟨m, rfl⟩
  | succ depth ih =>
    obtain ⟨i, rfl⟩ := Nat.exists_eq_add_of_lt (Nat.lt_of_lt_of_le (Nat.succ_pos depth) hdepth)
    rw [Nat.zero_add] at hi hdepth ⊢
    obtain ⟨k, hrun⟩ := ih (Nat.le_of_succ_le hi) (Nat.le_of_succ_le_succ hdepth) m
    have hresolve := (Library.resolve_of_free (relayName_free last (i + 1)) (some .unknown)).trans
      (by rw [relay_bound hi])
    refine ⟨k, ?_⟩
    rw [run, runFrame_cons, traced_quiet rfl]
    simp only [stepNode, executeNode, hresolve, execute, hrun]
    rfl

/-- A program without cycles need not end with a stack or a failure: there are those that need
    more frames than may be nested. -/
theorem run_of_acyclic_tooDeep :
    ¬∀ (library : Library) (nodes : List Node), library.IsStandard →
      Throughout library Node.Known nodes → library.AcyclicFrom nodes →
      ∀ config verbosity stack m,
        (∃ last k, run ⟨library, config, verbosity⟩ depthLimit nodes stack m = (.ok last, k))
          ∨ ∃ failure k, run ⟨library, config, verbosity⟩ depthLimit nodes stack m
              = (.error (.failure failure), k) := by
  intro h
  obtain ⟨k, hrun⟩ :=
    run_relay_tooDeep (le_refl 5000) (by decide : depthLimit ≤ 5000) .default [] (.start .fresh 0)
  obtain ⟨last, k', hends⟩ | ⟨failure, k', hends⟩ :=
    h (relay 5000) _ (relay_functions 5000) (relay_known 5000) (relay_acyclic 5000) .default 0 []
      (.start .fresh 0)
  · cases hrun.symm.trans hends
  · cases hrun.symm.trans hends

end StackCalc
