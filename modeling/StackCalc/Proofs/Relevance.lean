/-
  StackCalc.Proofs.Relevance

  Which definitions a run depends on.  A word is looked up among the built-in operations
  first, and then among the definitions; nothing else is asked for a word, and no word is
  looked up but those that the program can get to.  So two libraries with the same built-in
  operations run a program in the same way if they bind the same bodies to the names of
  these words.  A definition with the name of a built-in operation is never asked for, so no
  text that a session runs can tell whether it is there (`run_of_sameMeaning`).

  Traces are left out: they tell a call of a definition from a word that stands for nothing.
-/

import StackCalc.Proofs.Reachability
import StackCalc.Session

namespace StackCalc

/-! ## Words -/

namespace Library

/-- The nodes that a definition binds to a name. -/
def body? (library : Library) (name : String) : Option (List Node) :=
  (library.definitions.get? name).map (·.nodes)

variable {library library' : Library} {name : String}

theorem isBuiltin_congr (hfunctions : library.functions = library'.functions) (name : String) :
    library.isBuiltin name = library'.isBuiltin name := by
  rw [isBuiltin, isBuiltin, hfunctions]

/-- The name of a built-in operation stands for it, whatever is defined. -/
theorem resolve_of_isBuiltin (hfunctions : library.functions = library'.functions)
    (hbuiltin : library.isBuiltin name = true) (place : Option Place) :
    library.resolve name place = library'.resolve name place := by
  simp only [isBuiltin, Table.contains, Bool.or_eq_true, Option.isSome_iff_exists] at hbuiltin
  simp only [resolve, ← hfunctions]
  cases hfunction : library.functions.get? (Builtin.target name) with
  | some function => rfl
  | none =>
    rw [hfunction] at hbuiltin
    obtain ⟨_, hnone⟩ | ⟨command, hcommand⟩ := hbuiltin
    · cases hnone
    · rw [hcommand]

/-- Any other name stands for its definition, or for nothing. -/
theorem resolve_of_free (hfree : library.isBuiltin name = false) (place : Option Place) :
    library.resolve name place = match library.definitions.get? name with
      | some program => .ok ⟨name, .definition program⟩
      | none => .error (unresolved name place) := by
  simp only [isBuiltin, Table.contains, Bool.or_eq_false_iff, Option.isSome_eq_false_iff,
    Option.isNone_iff_eq_none] at hfree
  cases hfound : library.definitions.get? name <;> simp only [resolve, hfree.1, hfree.2, hfound]

end Library

/-! ## Steps -/

/-- A node that is no word for a definition, or one for which two libraries have the same
    body. -/
def Node.MeansSame (library library' : Library) (node : Node) : Prop :=
  ∀ name place, node = .word name place → library.isBuiltin name = false →
    library.body? name = library'.body? name

variable {setting setting' : Setting} {nested nested' : Nested} {node : Node}

/-- Blocks that are run in the same way have the same results. -/
theorem applyBlock_congr {body : List Node} (hbody : nested body = nested' body)
    (combinator : Combinator) (place : Place) :
    applyBlock nested body combinator place = applyBlock nested' body combinator place := by
  funext stack m
  cases combinator <;> simp only [applyBlock, accumulateStack, hbody]

/-- A word is executed in the same way under two libraries that mean the same by it. -/
theorem executeNode_word_congr (hconfig : setting.config = setting'.config)
    (hfunctions : setting.library.functions = setting'.library.functions)
    {name : String} {place : Place}
    (hsame : (Node.word name place).MeansSame setting.library setting'.library)
    (hnested : ∀ body, (Node.word name place).Runs setting.library body →
      nested body = nested' body)
    (stack : Stack) (m : Machine) :
    executeNode setting nested (.word name place) stack m
      = executeNode setting' nested' (.word name place) stack m := by
  cases hbuiltin : setting.library.isBuiltin name with
  | true =>
    rw [executeNode, executeNode, ← Library.resolve_of_isBuiltin hfunctions hbuiltin]
    cases hresolve : setting.library.resolve name (some place) with
    | error failure => rfl
    | ok operation =>
      obtain ⟨called, target⟩ := operation
      cases target with
      | function key function => rfl
      | command key command => simp only [execute, hconfig]
      | definition program => exact congrFun (congrFun (hnested _ (.word hresolve)) stack) m
  | false =>
    have hbuiltin' := hbuiltin
    rw [Library.isBuiltin_congr hfunctions] at hbuiltin'
    have hbody := hsame name place rfl hbuiltin
    have hresolve := Library.resolve_of_free hbuiltin (some place)
    have hresolve' := Library.resolve_of_free hbuiltin' (some place)
    rw [Library.body?, Library.body?] at hbody
    -- The two definitions may come from different lines, but have the same nodes.
    cases hleft : setting.library.definitions.get? name with
    | none =>
      rw [hleft, Option.map_none, eq_comm, Option.map_eq_none_iff] at hbody
      simp only [executeNode, hresolve, hresolve', hleft, hbody]
    | some program =>
      rw [hleft, Option.map_some, eq_comm, Option.map_eq_some_iff] at hbody
      obtain ⟨program', hright, hnodes⟩ := hbody
      rw [hleft] at hresolve
      simp only [executeNode, hresolve, hresolve', hright, execute, hnodes,
        hnested _ (.word hresolve)]

/-- A step is the same under two libraries that mean the same by its node. -/
theorem stepNode_congr (hconfig : setting.config = setting'.config)
    (hfunctions : setting.library.functions = setting'.library.functions)
    (hsame : node.MeansSame setting.library setting'.library)
    (hnested : ∀ body, node.Runs setting.library body → nested body = nested' body)
    (stack : Stack) (m : Machine) :
    stepNode setting nested node stack m = stepNode setting' nested' node stack m := by
  cases node with
  | word name place =>
    simp only [stepNode, executeNode_word_congr hconfig hfunctions hsame hnested]
  | block body combinator place =>
    simp only [stepNode, executeNode, applyBlock_congr (hnested body (.block ..))]
  | cell | branch | store | fetch => rfl

/-! ## Runs -/

theorem traced_quiet (hquiet : setting.verbosity = 0) (step : Nat) (nodes : List Node)
    (stack : Stack) (m : Machine) : traced setting step nodes stack m = m := by
  simp [traced, hquiet]

theorem finished_quiet (hquiet : setting.verbosity = 0) (step : Nat) (stack : Stack)
    (m : Machine) : finished setting step stack m = m.finish step := by
  simp [finished, hquiet]

theorem runFrame_congr (hconfig : setting.config = setting'.config)
    (hfunctions : setting.library.functions = setting'.library.functions)
    (hquiet : setting.verbosity = 0) (hquiet' : setting'.verbosity = 0)
    {queue : List Node}
    (hsame : Throughout setting.library (Node.MeansSame setting.library setting'.library) queue)
    (hnested : ∀ body,
      Throughout setting.library (Node.MeansSame setting.library setting'.library) body →
        nested body = nested' body)
    (step : Nat) (stack : Stack) (m : Machine) :
    runFrame setting nested step queue stack m = runFrame setting' nested' step queue stack m := by
  induction queue using frameInduction generalizing step stack m with
  | nil => rw [runFrame_nil, runFrame_nil, finished_quiet hquiet, finished_quiet hquiet']
  | cons node rest ih =>
    have hstep := stepNode_congr hconfig hfunctions hsame.head
      (fun body hruns => hnested body (hsame.inside hruns)) stack m
    rw [runFrame_cons, runFrame_cons, traced_quiet hquiet, traced_quiet hquiet', ← hstep]
    split
    · rfl
    · rename_i next front k hfirst
      exact ih front (stepNode_size hfirst) (hsame.behind hfirst) (step + 1) next k

/-- A program is run in the same way under two libraries that mean the same by all its
    words. -/
theorem run_congr (hconfig : setting.config = setting'.config)
    (hfunctions : setting.library.functions = setting'.library.functions)
    (hquiet : setting.verbosity = 0) (hquiet' : setting'.verbosity = 0) (depth : Nat)
    {nodes : List Node}
    (hsame : Throughout setting.library (Node.MeansSame setting.library setting'.library) nodes) :
    run setting depth nodes = run setting' depth nodes := by
  induction depth generalizing nodes with
  | zero => rfl
  | succ depth ih =>
    funext stack m
    exact runFrame_congr hconfig hfunctions hquiet hquiet' hsame (fun _ => ih) 0 stack m

/-! ## Sessions -/

/-- Two sessions that nothing but definitions with names of built-in operations can tell
    apart. -/
structure Session.Interchangeable (s t : Session) : Prop where
  memory : s.memory = t.memory
  config : s.config = t.config
  seed : s.seed = t.seed
  functions : s.library.functions = t.library.functions
  definitions : ∀ name, s.library.isBuiltin name = false →
    s.library.definitions.get? name = t.library.definitions.get? name

/-- Two outcomes that tell the same, of sessions that can go on in each other's place. -/
structure Outcome.Interchangeable {α : Type} (x y : Outcome α) : Prop where
  result : x.result = y.result
  printed : x.printed = y.printed
  remarks : x.remarks = y.remarks
  steps : x.steps = y.steps
  session : x.session.Interchangeable y.session

namespace Session

variable {s t : Session}

/-- A definition with the name of a built-in operation changes no answer of a session. -/
theorem interchangeable_define (s : Session) {name : String} (program : Program)
    (hbuiltin : s.library.isBuiltin name = true) :
    s.Interchangeable { s with library := s.library.define name program } where
  memory := rfl
  config := rfl
  seed := rfl
  functions := rfl
  definitions other hfree := by
    have hother : other ≠ name := by
      rintro rfl
      exact absurd (hbuiltin.symm.trans hfree) (by decide)
    rw [Library.define, Table.get?_set, if_neg hother]

namespace Interchangeable

theorem warning? (h : s.Interchangeable t) (name : String) :
    s.library.warning? name = t.library.warning? name := by
  rw [Library.warning?, Library.warning?, ← Library.isBuiltin_congr h.functions]
  cases hbuiltin : s.library.isBuiltin name with
  | true => rfl
  | false => rw [Table.contains, Table.contains, h.definitions name hbuiltin]

theorem bind (h : s.Interchangeable t) (name : String) (program : Program) :
    (s.bind name program).2 = (t.bind name program).2
      ∧ (s.bind name program).1.Interchangeable (t.bind name program).1 := by
  refine ⟨by simp only [Session.bind, h.warning?, h.config], h.memory, h.config, h.seed,
    h.functions, fun other hfree => ?_⟩
  simp only [Session.bind, Library.define, Table.get?_set, h.definitions other hfree]

/-- Definitions are bound with the same remarks. -/
theorem bindAll (h : s.Interchangeable t) (origin : Option String) (remarks : String)
    (definitions : List (Lexeme × List Lexeme)) :
    ∃ result s' t' remarks',
      s.bindAll origin remarks definitions = (result, s', remarks')
        ∧ t.bindAll origin remarks definitions = (result, t', remarks')
        ∧ s'.Interchangeable t' := by
  induction definitions generalizing s t remarks with
  | nil => exact ⟨.ok (), s, t, remarks, rfl, rfl, h⟩
  | cons definition rest ih =>
    obtain ⟨head, body⟩ := definition
    rw [Session.bindAll, Session.bindAll]
    cases assemble (tokens origin body) ⟨origin, head.line, head.line⟩ with
    | error error => exact ⟨.error error, s, t, remarks, rfl, rfl, h⟩
    | ok program =>
      obtain ⟨hremark, hbound⟩ := h.bind head.text program
      dsimp only
      rw [← hremark]
      exact ih hbound _

theorem unchanged {α : Type} (h : s.Interchangeable t) (result : Except Error α)
    (remarks : String) :
    Outcome.Interchangeable { s.unchanged result with remarks := remarks }
      { t.unchanged result with remarks := remarks } :=
  ⟨rfl, rfl, rfl, rfl, h⟩

theorem settle {α : Type} (h : s.Interchangeable t) (remarks : String) (reply : Reply α) :
    (s.settle remarks reply).Interchangeable (t.settle remarks reply) :=
  ⟨rfl, rfl, rfl, rfl, rfl, h.config, rfl, h.functions, h.definitions⟩

/-- A text has the same outcome in both sessions. -/
theorem run (h : s.Interchangeable t) (source : String) (stack : Stack) (name : Option String) :
    (s.run source stack name 0).Interchangeable (t.run source stack name 0) := by
  rw [Session.run, Session.run]
  cases parse source name with
  | error fault => exact h.unchanged _ ""
  | ok clauses =>
    obtain ⟨result, s', t', remarks, hs, ht, hbound⟩ := h.bindAll name "" (definitionsOf clauses)
    dsimp only
    rw [hs, ht]
    cases result with
    | error error => exact hbound.unchanged _ remarks
    | ok _ =>
      dsimp only
      cases assemble (tokens name (termWords clauses)) (.empty name) with
      | error error => exact hbound.unchanged _ remarks
      | ok program =>
        have hsame : Throughout s'.library (Node.MeansSame s'.library t'.library)
            program.nodes := by
          intro node _ other place _ hfree
          rw [Library.body?, Library.body?, hbound.definitions other hfree]
        have hrun : StackCalc.run (s'.setting 0) depthLimit program.nodes
            = StackCalc.run (t'.setting 0) depthLimit program.nodes :=
          run_congr hbound.config hbound.functions rfl rfl depthLimit hsame
        have hmachine : s'.machine = t'.machine := by
          rw [machine, machine, hbound.memory, hbound.seed]
        dsimp only
        rw [hrun, hmachine]
        exact hbound.settle remarks _

end Interchangeable
end Session

/-! ## What does not matter -/

/-- Two libraries with the same built-in operations run a program in the same way if they
    bind the same bodies, or none, to all names that the program can get to and that are no
    names of built-in operations.  What is defined under the name of a built-in operation
    makes no difference to any text that a session runs. -/
theorem run_of_sameMeaning (library library' : Library)
    (hfunctions : library.functions = library'.functions) (nodes : List Node)
    (hsame : ∀ name place, Reachable library nodes (.word name place) →
      library.isBuiltin name = false → library.body? name = library'.body? name) :
    (∀ config depth stack m,
        run ⟨library, config, 0⟩ depth nodes stack m
          = run ⟨library', config, 0⟩ depth nodes stack m)
      ∧ ∀ (session : Session) name program, session.library.isBuiltin name = true →
          ∀ source stack origin,
            (session.run source stack origin 0).Interchangeable
              (Session.run { session with library := session.library.define name program }
                source stack origin 0) := by
  constructor
  · intro config depth stack m
    have hmeans : Throughout library (Node.MeansSame library library') nodes := by
      rintro node hreachable name place rfl hfree
      exact hsame name place hreachable hfree
    rw [@run_congr ⟨library, config, 0⟩ ⟨library', config, 0⟩ rfl hfunctions rfl rfl depth _ hmeans]
  · intro session name program hbuiltin source stack origin
    exact (session.interchangeable_define program hbuiltin).run source stack origin

/-- A library with a definition for doubling a number. -/
def doubling : Library :=
  Library.fresh.define "double" ⟨[.word "dup" .unknown, .word "add" .unknown], .empty none⟩

/-- The same definition from another text, one with the name of a built-in operation, and one
    that is not called. -/
def crowdedDoubling : Library :=
  ((Library.fresh.define "add" ⟨[.word "drop" .unknown], .empty none⟩).define "double"
    ⟨[.word "dup" .unknown, .word "add" .unknown], ⟨some "other", 1, 1⟩⟩).define "idle"
      ⟨[], .empty none⟩

theorem doubling_reachable {node : Node} (h : Reachable doubling [.word "double" .unknown] node) :
    node ∈ [.word "double" .unknown, .word "dup" .unknown, .word "add" .unknown] := by
  refine Throughout.of_closed
    (P := (· ∈ [.word "double" .unknown, .word "dup" .unknown, .word "add" .unknown]))
    (by simp) ?_ ?_ node h
  · intro test consequent alternative place hbranch
    simp at hbranch
  · intro outer body houter hruns
    cases hruns with
    | block body combinator place => simp at houter
    | word resolved =>
      have hprogram := Library.definition_of_resolve resolved
      rw [doubling, Library.define, Table.get?_set] at hprogram
      split at hprogram
      · cases hprogram
        simp
      · cases hprogram

/-- A number is doubled in the same way, whatever else is defined. -/
theorem run_of_sameMeaning_doubling :
    (doubling.functions = crowdedDoubling.functions
      ∧ (∀ name place, Reachable doubling [.word "double" .unknown] (.word name place) →
          doubling.isBuiltin name = false → doubling.body? name = crowdedDoubling.body? name)
      ∧ (Session.fresh .default).library.isBuiltin "add" = true)
      ∧ (∀ config depth stack m,
          run ⟨doubling, config, 0⟩ depth [.word "double" .unknown] stack m
            = run ⟨crowdedDoubling, config, 0⟩ depth [.word "double" .unknown] stack m)
      ∧ ∀ source stack origin,
          ((Session.fresh .default).run source stack origin 0).Interchangeable
            (Session.run { Session.fresh .default with
                library := Library.fresh.define "add" ⟨[], .empty none⟩ } source stack origin 0) := by
  have hsame : ∀ name place, Reachable doubling [.word "double" .unknown] (.word name place) →
      doubling.isBuiltin name = false → doubling.body? name = crowdedDoubling.body? name := by
    intro name place hreachable hfree
    have hmem := doubling_reachable hreachable
    simp only [List.mem_cons, Node.word.injEq, List.not_mem_nil, or_false] at hmem
    obtain ⟨rfl, -⟩ | ⟨rfl, -⟩ | ⟨rfl, -⟩ := hmem
    · rfl
    · exact absurd hfree (by decide)
    · exact absurd hfree (by decide)
  obtain ⟨hrun, hshadowed⟩ :=
    run_of_sameMeaning doubling crowdedDoubling rfl [.word "double" .unknown] hsame
  exact ⟨⟨rfl, hsame, by decide⟩, hrun,
    hshadowed (.fresh .default) "add" ⟨[], .empty none⟩ (by decide)⟩

end StackCalc
