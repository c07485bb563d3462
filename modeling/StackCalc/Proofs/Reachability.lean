/-
  StackCalc.Proofs.Reachability

  The nodes that a program can get to, whatever its stack and its memory: its own, those
  of the branches of its conditionals, and those of the programs that its nodes run in
  frames of their own.  A step gets to no others (`stepNode_reachable`), so what holds
  throughout a program holds of every node that a run of it executes: also throughout the
  queue behind a step (`Throughout.behind`) and the programs that a step runs
  (`Throughout.inside`).
-/

import StackCalc.Proofs.NestedRuns

namespace StackCalc

/-! ## Words -/

/-- No functions were registered: a library of built-in operations and definitions. -/
def Library.IsStandard (library : Library) : Prop :=
  library.functions = fresh.functions

/-- A word stands for a built-in function, a command or a definition, or for nothing. -/
theorem Library.IsStandard.resolve_cases {library : Library} (h : library.IsStandard)
    (name : String) (place : Option Place) :
    (∃ function, (Builtin.target name, function) ∈ Builtin.functions
        ∧ library.resolve name place = .ok ⟨name, .function (Builtin.target name) function⟩)
      ∨ (∃ command, (Builtin.target name, command) ∈ Builtin.commands
        ∧ library.resolve name place = .ok ⟨name, .command (Builtin.target name) command⟩)
      ∨ (∃ program, library.definitions.get? name = some program
        ∧ library.resolve name place = .ok ⟨name, .definition program⟩)
      ∨ library.resolve name place = .error (unresolved name place) := by
  rw [resolve]
  split
  · rename_i function hfunction
    rw [h] at hfunction
    exact Or.inl ⟨function, Table.mem_of_find? hfunction, rfl⟩
  · split
    · rename_i command hcommand
      exact Or.inr (Or.inl ⟨command, Table.mem_of_find? hcommand, rfl⟩)
    · split
      · rename_i program hprogram
        exact Or.inr (Or.inr (Or.inl ⟨program, hprogram, rfl⟩))
      · exact Or.inr (Or.inr (Or.inr rfl))

/-- A word that stands for a definition is bound to it. -/
theorem Library.definition_of_resolve {library : Library} {name called : String}
    {place : Option Place} {program : Program}
    (h : library.resolve name place = .ok ⟨called, .definition program⟩) :
    library.definitions.get? name = some program := by
  rw [resolve] at h
  split at h
  · cases h
  · split at h
    · cases h
    · split at h
      · cases h
        assumption
      · cases h

/-! ## Nodes -/

/-- The nodes that a program can get to. -/
inductive Reachable (library : Library) (nodes : List Node) : Node → Prop
  | own {node : Node} (mem : node ∈ nodes) : Reachable library nodes node
  | branch {test : Test} {consequent alternative : List Node} {place : Place} {node : Node}
      (outer : Reachable library nodes (.branch test consequent alternative place))
      (mem : node ∈ consequent ++ alternative) : Reachable library nodes node
  | inside {outer node : Node} {body : List Node} (reached : Reachable library nodes outer)
      (runs : outer.Runs library body) (mem : node ∈ body) : Reachable library nodes node

variable {library : Library} {p q : List Node} {node : Node}

/-- From nodes that a program can get to it can get to all that they can get to. -/
theorem Reachable.trans (h : Reachable library q node)
    (hq : ∀ x ∈ q, Reachable library p x) : Reachable library p node := by
  induction h with
  | own mem => exact hq _ mem
  | branch _ mem ih => exact .branch ih mem
  | inside _ runs mem ih => exact .inside ih runs mem

/-- What a step puts in front of the queue stands in a branch of its conditional. -/
theorem stepNode_front {setting : Setting} {nested : Nested} {stack next : Stack}
    {front : List Node} {x : Node} {m m' : Machine}
    (hstep : stepNode setting nested node stack m = (.ok (next, front), m')) (hx : x ∈ front) :
    ∃ test consequent alternative place, node = .branch test consequent alternative place
      ∧ x ∈ consequent ++ alternative := by
  obtain ⟨test, consequent, alternative, place, rfl⟩ | hn := node.branch_or_ne
  · refine ⟨test, consequent, alternative, place, rfl, ?_⟩
    rw [stepNode_branch] at hstep
    split at hstep
    · cases hstep
    · cases hstep
      split at hx
      · exact List.mem_append_left _ hx
      · exact List.mem_append_right _ hx
  · rw [stepNode_of_ne_branch stack m hn] at hstep
    split at hstep
    · cases hstep
    · cases hstep
      cases hx

/-- What a step leaves in the queue can be reached. -/
theorem stepNode_reachable {setting : Setting} {nested : Nested} {stack next : Stack}
    {rest front : List Node} {m m' : Machine}
    (hstep : stepNode setting nested node stack m = (.ok (next, front), m')) :
    ∀ x ∈ front ++ rest, Reachable library (node :: rest) x := by
  intro x hx
  obtain hfront | hrest := List.mem_append.mp hx
  · obtain ⟨test, consequent, alternative, place, rfl, hbranch⟩ := stepNode_front hstep hfront
    exact .branch (.own (List.mem_cons_self ..)) hbranch
  · exact .own (List.mem_cons_of_mem _ hrest)

theorem Node.Runs.reachable {rest body : List Node} (h : node.Runs library body) :
    ∀ x ∈ body, Reachable library (node :: rest) x :=
  fun _ hx => .inside (.own (List.mem_cons_self ..)) h hx

theorem NodeStarts.runs {setting : Setting} {nested : Nested} {stack s : Stack} {m k : Machine}
    {body : List Node} (h : NodeStarts setting nested node stack m body s k) :
    node.Runs setting.library body := by
  cases h with
  | call resolved => exact .word resolved
  | block starts => exact .block _ _ _

/-! ## Properties throughout a program -/

/-- All nodes that a program can get to have a property. -/
def Throughout (library : Library) (P : Node → Prop) (nodes : List Node) : Prop :=
  ∀ node, Reachable library nodes node → P node

namespace Throughout

variable {P : Node → Prop} {rest front : List Node}

/-- A property holds throughout a program if it does not end at conditionals and calls. -/
theorem of_closed (hown : ∀ x ∈ p, P x)
    (hbranch : ∀ test consequent alternative place, P (.branch test consequent alternative place) →
      ∀ x ∈ consequent ++ alternative, P x)
    (hinside : ∀ outer body, P outer → outer.Runs library body → ∀ x ∈ body, P x) :
    Throughout library P p := by
  intro node h
  induction h with
  | own mem => exact hown _ mem
  | branch _ mem ih => exact hbranch _ _ _ _ ih _ mem
  | inside _ runs mem ih => exact hinside _ _ ih runs _ mem

theorem of_reachable (h : Throughout library P p) (hq : ∀ x ∈ q, Reachable library p x) :
    Throughout library P q :=
  fun _ hnode => h _ (hnode.trans hq)

theorem imp {Q : Node → Prop} (h : Throughout library P p) (hPQ : ∀ x, P x → Q x) :
    Throughout library Q p :=
  fun node hnode => hPQ node (h node hnode)

theorem head (h : Throughout library P (node :: rest)) : P node :=
  h node (.own (List.mem_cons_self ..))

theorem inside (h : Throughout library P (node :: rest)) {body : List Node}
    (hruns : node.Runs library body) : Throughout library P body :=
  h.of_reachable hruns.reachable

theorem behind {setting : Setting} {nested : Nested} {stack next : Stack} {m m' : Machine}
    (h : Throughout library P (node :: rest))
    (hstep : stepNode setting nested node stack m = (.ok (next, front), m')) :
    Throughout library P (front ++ rest) :=
  h.of_reachable (stepNode_reachable hstep)

end Throughout
end StackCalc
