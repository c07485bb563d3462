/-
  StackCalc.Proofs.Pieces

  Running a text in pieces.  The clauses of two texts, one below the other, are those of the
  first and then those of the second (`parse_line`), and a run of clauses in two parts is a run
  of the first part and then, on what that leaves, one of the second, if no term of the first
  part comes before a definition of the second (`perform_append`).  A run does not depend on
  places (`perform_like`), so a text can be run piece by piece (`run_in_pieces`).
-/

import StackCalc.Proofs.Binding
import StackCalc.Proofs.Composition
import StackCalc.Proofs.Resumption

namespace StackCalc

open Assembly Clause Grammar

/-! ## Clauses -/

namespace Clause

/-- A clause without the places of its words. -/
def unplaced : Clause → Clause
  | .definition name body => .definition name.unplaced (body.map Lexeme.unplaced)
  | .term words => .term (words.map Lexeme.unplaced)

variable {clauses first second : List Clause} {xs ys : List Lexeme}

/-- A text has no more than one list of clauses. -/
theorem Reads.unique (h : Reads first xs) (h' : Reads second xs) : first = second := by
  have hrun := h.run.symm.trans (@Reads.run xs second h' [])
  simpa using hrun

theorem Reads.append (h : Reads first xs) (h' : Reads second ys) :
    Reads (first ++ second) (xs ++ ys) := by
  induction h with
  | nil => exact h'
  | definition hopening hname hbody hclosing _ ih =>
    rw [List.append_assoc, @List.cons_append _ _ _ ys]
    exact .definition hopening hname hbody hclosing ih
  | term hitem _ ih =>
    rw [List.append_assoc]
    exact .term hitem ih

/-- What is left of a text behind the words of some clauses is a text. -/
theorem Reads.rest (h : Reads first xs) (h' : Reads clauses (xs ++ ys)) :
    ∃ second, Reads second ys ∧ clauses = first ++ second := by
  -- Behind the clauses of `xs` the reader demands a text, so `ys` is one.
  have hrun := @Reads.run (xs ++ ys) clauses h' []
  rw [Reader.run_append, h.run] at hrun
  have hdemands := Reader.demands_of_run hrun (Reader.Sane.of_ne (by simp)) rfl
  cases hdemands with
  | text htext =>
    obtain ⟨second, hsecond⟩ := Reads.of_isText htext
    exact ⟨second, hsecond, h'.unique (h.append hsecond)⟩

theorem isItems_unplaced (h : IsItems Lexeme.kind xs) :
    IsItems Lexeme.kind (xs.map Lexeme.unplaced) := by
  refine h.map.of_map _ ?_
  rw [List.map_map]
  rfl

theorem isItem_unplaced (h : IsItem Lexeme.kind xs) :
    IsItem Lexeme.kind (xs.map Lexeme.unplaced) := by
  refine h.map.of_map _ ?_
  rw [List.map_map]
  rfl

/-- The clauses of words without places are those of the words, without places. -/
theorem Reads.unplaced (h : Reads clauses xs) :
    Reads (clauses.map Clause.unplaced) (xs.map Lexeme.unplaced) := by
  induction h with
  | nil => exact .nil
  | definition hopening hname hbody hclosing _ ih =>
    rw [List.map_append, List.map_cons, List.map_cons]
    exact .definition hopening hname (isItems_unplaced hbody) hclosing ih
  | term hitem _ ih =>
    rw [List.map_append]
    exact .term (isItem_unplaced hitem) ih

end Clause

/-- Places can be left out only once. -/
theorem Clause.unplaced_unplaced (clauses : List Clause) :
    (clauses.map Clause.unplaced).map Clause.unplaced = clauses.map Clause.unplaced := by
  rw [List.map_map]
  congr 1
  funext x
  cases x with
  | definition name body => simp [unplaced, Lexeme.unplaced]
  | term words => simp [unplaced, Lexeme.unplaced]

theorem definitionsOf_append (first second : List Clause) :
    definitionsOf (first ++ second) = definitionsOf first ++ definitionsOf second :=
  List.filterMap_append

theorem termWords_append (first second : List Clause) :
    termWords (first ++ second) = termWords first ++ termWords second :=
  List.flatMap_append

/-- A definition without the places of its words. -/
def unplacedDefinition (definition : Lexeme × List Lexeme) : Lexeme × List Lexeme :=
  (definition.1.unplaced, definition.2.map Lexeme.unplaced)

theorem definitionsOf_unplaced (clauses : List Clause) :
    definitionsOf (clauses.map Clause.unplaced)
      = (definitionsOf clauses).map unplacedDefinition := by
  induction clauses with
  | nil => rfl
  | cons clause rest ih =>
    cases clause with
    | definition name body => exact congrArg (_ :: ·) ih
    | term words => exact ih

theorem termWords_unplaced (clauses : List Clause) :
    termWords (clauses.map Clause.unplaced) = (termWords clauses).map Lexeme.unplaced := by
  induction clauses with
  | nil => rfl
  | cons clause rest ih =>
    cases clause with
    | definition name body => exact ih
    | term words =>
      rw [Clause.termWords_term, List.map_append, ← ih]
      rfl

/-- The bodies of the definitions and the terms of clauses are items, of words as a text has
    them. -/
structure Clause.WellRead (clauses : List Clause) : Prop where
  bodies : ∀ head body, (head, body) ∈ definitionsOf clauses →
    IsItems Lexeme.kind body ∧ ∀ x ∈ body, x.Genuine
  terms : IsItems Lexeme.kind (termWords clauses) ∧ ∀ x ∈ termWords clauses, x.Genuine

theorem Clause.Reads.wellRead {clauses : List Clause} {xs : List Lexeme} (h : Reads clauses xs)
    (hgenuine : ∀ x ∈ xs, x.Genuine) : WellRead clauses where
  bodies head body hmem := by
    obtain ⟨hitems, hsub⟩ := h.definition_items hmem
    exact ⟨hitems, fun x hx => hgenuine x (hsub hx)⟩
  terms := by
    obtain ⟨hitems, hsub⟩ := h.term_items
    exact ⟨hitems, fun x hx => hgenuine x (hsub hx)⟩

theorem Clause.WellRead.reassembles {clauses : List Clause} (h : WellRead clauses) :
    ∀ head body, (head, body) ∈ definitionsOf clauses → Reassembles body :=
  fun head body hmem => reassembles_of_items (h.bodies head body hmem).1 (h.bodies head body hmem).2

/-- The terms of clauses are assembled to some nodes. -/
theorem Clause.WellRead.assembles {clauses : List Clause} (h : WellRead clauses)
    (name : Option String) :
    ∃ nodes, Assembles (Session.tokens name (termWords clauses)) nodes := by
  obtain ⟨nodes, hassembles, -⟩ :=
    items_assemble (items_tokens name h.terms.1) (genuine_tokens name h.terms.2)
  exact ⟨nodes, hassembles⟩

namespace Session

/-! ## Definitions in two parts -/

/-- The session behind the definitions of a text. -/
def bound (session : Session) (name : Option String) (definitions : List (Lexeme × List Lexeme)) :
    Session :=
  (session.bindAll name "" definitions).2.1

variable {name name' : Option String} {definitions more : List (Lexeme × List Lexeme)}

/-- The remarks that were made before are not looked at. -/
theorem bindAll_remarks (session : Session) (remarks : String) :
    ∃ remarks', session.bindAll name remarks definitions
      = ((session.bindAll name "" definitions).1, session.bound name definitions, remarks') := by
  induction definitions generalizing session remarks with
  | nil => exact ⟨remarks, rfl⟩
  | cons definition rest ih =>
    obtain ⟨head, body⟩ := definition
    simp only [bound, bindAll]
    cases assemble (tokens name body) ⟨name, head.line, head.line⟩ with
    | error error => exact ⟨remarks, rfl⟩
    | ok program =>
      have hfirst := ih (session.bind head.text program).1
      obtain ⟨remarks₁, h₁⟩ := hfirst (remarks ++ (session.bind head.text program).2)
      obtain ⟨remarks₂, h₂⟩ := hfirst ("" ++ (session.bind head.text program).2)
      refine ⟨remarks₁, ?_⟩
      dsimp only
      rw [h₁, h₂]

theorem bindAll_cons {session : Session} {head : Lexeme} {body : List Lexeme} {program : Program}
    (h : assemble (tokens name body) ⟨name, head.line, head.line⟩ = .ok program)
    (remarks : String) :
    session.bindAll name remarks ((head, body) :: more)
      = (session.bind head.text program).1.bindAll name
          (remarks ++ (session.bind head.text program).2) more := by
  simp only [bindAll, h]

theorem bound_cons {session : Session} {head : Lexeme} {body : List Lexeme} {program : Program}
    (h : assemble (tokens name body) ⟨name, head.line, head.line⟩ = .ok program) :
    session.bound name ((head, body) :: more)
      = (session.bind head.text program).1.bound name more := by
  obtain ⟨remarks, hrest⟩ := @bindAll_remarks name more (session.bind head.text program).1
    ("" ++ (session.bind head.text program).2)
  rw [bound, bindAll_cons h, hrest]

/-- Definitions that can be assembled are bound, which changes nothing but the definitions. -/
theorem bindAll_eq (session : Session)
    (h : ∀ head body, (head, body) ∈ definitions → Reassembles body) :
    (∃ remarks, session.bindAll name "" definitions
        = (.ok (), session.bound name definitions, remarks))
      ∧ ∃ table, session.bound name definitions = session.withDefinitions table := by
  obtain ⟨table, remarks, hbind, -⟩ := @bindAll_ok name _ session "" h
  have hbound : session.bound name definitions = session.withDefinitions table := by
    rw [bound, hbind]
  exact ⟨⟨remarks, by rw [hbind, hbound]⟩, table, hbound⟩

theorem bound_append (session : Session)
    (h : ∀ head body, (head, body) ∈ definitions → Reassembles body) :
    session.bound name (definitions ++ more)
      = (session.bound name definitions).bound name more := by
  induction definitions generalizing session with
  | nil => rfl
  | cons definition rest ih =>
    obtain ⟨head, body⟩ := definition
    obtain ⟨program, hprogram, -⟩ :=
      h head body (List.mem_cons_self ..) name ⟨name, head.line, head.line⟩
    rw [List.cons_append, bound_cons hprogram, bound_cons hprogram]
    exact ih _ fun head body hmem => h head body (List.mem_cons_of_mem _ hmem)

/-- Which definitions are bound does not depend on memory and random numbers. -/
theorem bound_library {session session' : Session} (hlibrary : session.library = session'.library)
    (h : ∀ head body, (head, body) ∈ definitions → Reassembles body) :
    (session.bound name definitions).library = (session'.bound name definitions).library := by
  induction definitions generalizing session session' with
  | nil => exact hlibrary
  | cons definition rest ih =>
    obtain ⟨head, body⟩ := definition
    obtain ⟨program, hprogram, -⟩ :=
      h head body (List.mem_cons_self ..) name ⟨name, head.line, head.line⟩
    rw [bound_cons hprogram, bound_cons hprogram]
    refine ih ?_ fun head body hmem => h head body (List.mem_cons_of_mem _ hmem)
    exact congrArg (·.define head.text program) hlibrary

/-! ## Sessions apart from places -/

/-- Two sessions that only the places in their definitions tell apart. -/
structure Like (session session' : Session) : Prop where
  library : session.library.unplaced = session'.library.unplaced
  memory : session.memory = session'.memory
  config : session.config = session'.config
  seed : session.seed = session'.seed

theorem Like.refl (session : Session) : Like session session := ⟨rfl, rfl, rfl, rfl⟩

variable {session session' : Session}

theorem Like.trans {third : Session} (h : session.Like session') (h' : session'.Like third) :
    session.Like third :=
  ⟨h.library.trans h'.library, h.memory.trans h'.memory, h.config.trans h'.config,
    h.seed.trans h'.seed⟩

theorem Like.setting (h : session.Like session') (verbosity verbosity' : Nat) :
    (session.setting verbosity).Like (session'.setting verbosity') :=
  ⟨h.config, .of_unplaced h.library⟩

theorem Like.machine (h : session.Like session') : session.machine = session'.machine := by
  rw [Session.machine, Session.machine, h.memory, h.seed]

/-- Like programs are bound to a name in like sessions alike, with the same remark. -/
theorem Like.bind (hlike : session.Like session') {program program' : Program}
    (h : program.unplaced = program'.unplaced) (name : String) :
    (session.bind name program).1.Like (session'.bind name program').1
      ∧ (session.bind name program).2 = (session'.bind name program').2 := by
  refine ⟨⟨?_, hlike.memory, hlike.config, hlike.seed⟩, ?_⟩
  · simp only [Session.bind, Library.unplaced_define, hlike.library, h]
  · have hwarning : session.library.warning? name = session'.library.warning? name := by
      rw [← Library.warning?_unplaced, hlike.library, Library.warning?_unplaced]
    simp only [Session.bind, hlike.config, hwarning]

/-- Like definitions are bound in like sessions alike, with the same remarks. -/
theorem Like.bindAll (hlike : session.Like session')
    (hdefinitions : definitions.map unplacedDefinition = more.map unplacedDefinition)
    (h : ∀ head body, (head, body) ∈ definitions → Reassembles body)
    (h' : ∀ head body, (head, body) ∈ more → Reassembles body) (remarks : String) :
    (session.bindAll name remarks definitions).2.1.Like
        (session'.bindAll name' remarks more).2.1
      ∧ (session.bindAll name remarks definitions).2.2
        = (session'.bindAll name' remarks more).2.2 := by
  induction definitions generalizing session session' more remarks with
  | nil =>
    obtain rfl := List.map_eq_nil_iff.mp hdefinitions.symm
    exact ⟨hlike, rfl⟩
  | cons definition rest ih =>
    obtain ⟨definition', rest', rfl, hfirst, hrest⟩ := List.map_eq_cons_iff.mp hdefinitions.symm
    obtain ⟨head, body⟩ := definition
    obtain ⟨head', body'⟩ := definition'
    obtain ⟨hhead, hbody⟩ := Prod.mk.inj hfirst
    obtain ⟨program, hprogram, -⟩ :=
      h head body (List.mem_cons_self ..) name ⟨name, head.line, head.line⟩
    obtain ⟨program', hprogram', -⟩ :=
      h' head' body' (List.mem_cons_self ..) name' ⟨name', head'.line, head'.line⟩
    -- The first definitions are bound to programs that only places tell apart.
    have hunplaced : program.unplaced = program'.unplaced :=
      assemble_unplaced hbody.symm hprogram hprogram'
    have htext : head'.unplaced.text = head.unplaced.text := congrArg Lexeme.text hhead
    have hname : head.text = head'.text := htext.symm
    obtain ⟨hbound, hremark⟩ := hlike.bind hunplaced head.text
    rw [bindAll_cons hprogram, bindAll_cons hprogram', ← hname, hremark]
    exact ih hbound hrest.symm (fun head body hmem => h head body (List.mem_cons_of_mem _ hmem))
      (fun head body hmem => h' head body (List.mem_cons_of_mem _ hmem)) _

/-! ## Runs of clauses -/

/-- Runs the clauses of a text on a stack. -/
def perform (session : Session) (name : Option String) (clauses : List Clause) (stack : Stack)
    (verbosity : Nat) : Outcome Stack :=
  match session.bindAll name "" (definitionsOf clauses) with
  | (.error error, session, remarks) =>
    { session.unchanged (.error error) with remarks := remarks }
  | (.ok (), session, remarks) =>
    match assemble (tokens name (termWords clauses)) (.empty name) with
    | .error error => { session.unchanged (.error error) with remarks := remarks }
    | .ok program =>
      session.settle remarks
        (StackCalc.run (session.setting verbosity) depthLimit program.nodes stack session.machine)

/-- A run of a text that parses is a run of its clauses. -/
theorem run_eq_perform {source : String} {clauses : List Clause}
    (h : parse source name = .ok clauses) (stack : Stack) (verbosity : Nat) :
    session.run source stack name verbosity = session.perform name clauses stack verbosity := by
  rw [run, h]
  rfl

/-- The clauses of a text can always be performed: the definitions are bound, and the nodes of
    the terms are run under them. -/
theorem perform_eq (session : Session) {clauses : List Clause} (h : WellRead clauses)
    {nodes : List Node}
    (hnodes : Assembles (tokens name (termWords clauses)) nodes) (stack : Stack)
    (verbosity : Nat) :
    ∃ remarks, session.perform name clauses stack verbosity
      = (session.bound name (definitionsOf clauses)).settle remarks
          (StackCalc.run ((session.bound name (definitionsOf clauses)).setting verbosity)
            depthLimit nodes stack session.machine) := by
  obtain ⟨⟨remarks, hbind⟩, table, hbound⟩ := @bindAll_eq name _ session h.reassembles
  refine ⟨remarks, ?_⟩
  rw [perform, hbind]
  simp only [assemble_of_assembles hnodes]
  rw [hbound]
  rfl

end Session

/-! ## Outcomes apart from places -/

/-- Two outcomes that only places tell apart: the result is the same but for the place of an
    error, and so is the session; the same steps were counted. -/
structure Outcome.Like {α : Type} (x y : Outcome α) : Prop where
  result : (∃ result, x.result = .ok result ∧ y.result = .ok result)
    ∨ ∃ error error', x.result = .error error ∧ y.result = .error error'
        ∧ error.unplaced = error'.unplaced
  session : x.session.Like y.session
  steps : x.steps = y.steps

theorem Outcome.Like.of_ok {α : Type} {x y : Outcome α} {result : α} (h : x.Like y)
    (hy : y.result = .ok result) : x.result = .ok result := by
  obtain ⟨result', hx, hy'⟩ | ⟨error, error', -, hy', -⟩ := h.result
  · rw [hx, ← hy', hy]
  · rw [hy] at hy'
    cases hy'

namespace Session

variable {name name' : Option String} {session session' : Session} {remarks remarks' : String}

/-- Like replies are settled with the same result, but for the place of an error. -/
theorem settle_result {α : Type} {R : Machine → Machine → Prop} {x y : Reply α}
    (h : Reply.Like R x y) :
    (∃ result, (session.settle remarks x).result = .ok result
        ∧ (session'.settle remarks' y).result = .ok result)
      ∨ ∃ error error', (session.settle remarks x).result = .error error
        ∧ (session'.settle remarks' y).result = .error error'
        ∧ error.unplaced = error'.unplaced := by
  obtain ⟨result, m, n, rfl, rfl, -⟩ | ⟨error, error', m, n, rfl, rfl, herror, -⟩ := h
  · exact Or.inl ⟨result, rfl, rfl⟩
  · exact Or.inr ⟨error, error', rfl, rfl, herror⟩

theorem settle_like {α : Type} (hlike : session.Like session') {x y : Reply α}
    (h : Reply.Like (Machine.Resumes [] 0 0) x y) :
    (session.settle remarks x).Like (session'.settle remarks' y) := by
  have hm := h.machines
  refine ⟨settle_result h, ⟨hlike.library, hm.memory.symm, hlike.config, hm.seed.symm⟩, ?_⟩
  simp only [settle, hm.frames, hm.steps, Nat.add_zero]

/-- The remarks of a run are those on its definitions. -/
theorem perform_remarks (session : Session) (name : Option String) (clauses : List Clause)
    (stack : Stack) (verbosity : Nat) :
    (session.perform name clauses stack verbosity).remarks
      = (session.bindAll name "" (definitionsOf clauses)).2.2 := by
  rw [perform]
  obtain ⟨_ | _, inner, remarks⟩ := session.bindAll name "" (definitionsOf clauses)
  · rfl
  · dsimp only
    split <;> rfl

/-- Like clauses are run in like sessions as like nodes, behind the same remarks. -/
theorem Like.perform_eq (hlike : session.Like session') {clauses clauses' : List Clause}
    (hclauses : clauses.map Clause.unplaced = clauses'.map Clause.unplaced)
    (h : WellRead clauses) (h' : WellRead clauses') (stack : Stack) (verbosity verbosity' : Nat) :
    ∃ (inner inner' : Session) (nodes nodes' : List Node) (remarks : String), inner.Like inner'
      ∧ Node.unplacedAll nodes = Node.unplacedAll nodes'
      ∧ session.perform name clauses stack verbosity
        = inner.settle remarks (StackCalc.run (inner.setting verbosity) depthLimit nodes stack
            session.machine)
      ∧ session'.perform name' clauses' stack verbosity'
        = inner'.settle remarks (StackCalc.run (inner'.setting verbosity') depthLimit nodes' stack
            session.machine) := by
  obtain ⟨nodes, hnodes⟩ := h.assembles name
  obtain ⟨nodes', hnodes'⟩ := h'.assembles name'
  have hdefinitions : (definitionsOf clauses).map unplacedDefinition
      = (definitionsOf clauses').map unplacedDefinition := by
    rw [← definitionsOf_unplaced, hclauses, definitionsOf_unplaced]
  have hwords : (termWords clauses).map Lexeme.unplaced
      = (termWords clauses').map Lexeme.unplaced := by
    rw [← termWords_unplaced, hclauses, termWords_unplaced]
  have hunplaced : Node.unplacedAll nodes = Node.unplacedAll nodes' :=
    congrArg Program.nodes (assemble_unplaced hwords (assemble_of_assembles hnodes (.empty name))
      (assemble_of_assembles hnodes' (.empty name')))
  obtain ⟨hbound, hsaid⟩ :=
    @Like.bindAll name name' _ _ _ _ hlike hdefinitions h.reassembles h'.reassembles ""
  obtain ⟨remarks, hperform⟩ := session.perform_eq h hnodes stack verbosity
  obtain ⟨remarks', hperform'⟩ := session'.perform_eq h' hnodes' stack verbosity'
  have hremarks : remarks = remarks' := by
    have hfirst := session.perform_remarks name clauses stack verbosity
    have hsecond := session'.perform_remarks name' clauses' stack verbosity'
    rw [hperform] at hfirst
    rw [hperform'] at hsecond
    exact hfirst.trans (hsaid.trans hsecond.symm)
  rw [← hremarks, ← hlike.machine] at hperform'
  exact ⟨_, _, nodes, nodes', remarks, hbound, hunplaced, hperform, hperform'⟩

/-- Like clauses have like outcomes in like sessions, whatever the name of the text and however
    much is traced. -/
theorem perform_like (hlike : session.Like session') {clauses clauses' : List Clause}
    (hclauses : clauses.map Clause.unplaced = clauses'.map Clause.unplaced)
    (h : WellRead clauses) (h' : WellRead clauses') (stack : Stack) (verbosity verbosity' : Nat) :
    (session.perform name clauses stack verbosity).Like
      (session'.perform name' clauses' stack verbosity') := by
  obtain ⟨inner, inner', nodes, nodes', remarks, hinner, hnodes, hperform, hperform'⟩ :=
    hlike.perform_eq hclauses h h' stack verbosity verbosity'
  rw [hperform, hperform']
  exact settle_like hinner
    (run_like (hinner.setting _ _) depthLimit nodes nodes' hnodes stack _ _ (.refl _))

/-- Clauses without definitions leave the library alone. -/
theorem perform_library {clauses : List Clause} (h : WellRead clauses)
    (hterms : definitionsOf clauses = []) (stack : Stack) (verbosity : Nat) :
    (session.perform name clauses stack verbosity).session.library = session.library := by
  obtain ⟨nodes, hnodes⟩ := h.assembles name
  obtain ⟨remarks, hperform⟩ := session.perform_eq h hnodes stack verbosity
  rw [hperform, hterms]
  rfl

end Session

/-! ## Runs in two parts -/

/-- A run that finishes has finished a frame. -/
theorem run_frames {setting : Setting} {depth : Nat} {nodes : List Node} {stack last : Stack}
    {m m' : Machine} (h : run setting depth nodes stack m = (.ok last, m')) : m'.frames ≠ 0 := by
  have hrelated := run_related setting depth nodes stack m m (.refl m)
  rw [h] at hrelated
  cases depth with
  | zero => cases h
  | succ depth =>
    -- A frame of the structural meaning counts itself when it ends.
    obtain ⟨hresult, hahead⟩ := hrelated
    have hframes : m'.frames = (evaluate setting (depth + 1) nodes stack m).2.frames :=
      hahead.frames.symm
    rw [hframes]
    revert hresult
    simp only [evaluate]
    obtain ⟨_ | ⟨last, steps⟩, k⟩ := evaluateNodes setting (evaluate setting depth) nodes stack m
    · intro hresult
      cases hresult
    · intro _
      exact Nat.succ_ne_zero _

section

variable {setting : Setting} {depth : Nat} {p q : List Node} {stack between last : Stack}
  {m m₁ m₂ : Machine} {error : Error}

theorem run_inTurn : InTurn (run setting depth) p q stack m :=
  .of_related (run_related setting depth) (evaluate_inTurn depth p q stack m)

/-- On a machine that has run something a program behaves like on one that starts with its
    memory and its random numbers. -/
theorem run_resumed (setting : Setting) (depth : Nat) (q : List Node) (between : Stack)
    (m : Machine) :
    Reply.Like (Machine.Resumes m.printed m.steps m.frames)
      (run setting depth q between (.start m.memory m.seed)) (run setting depth q between m) := by
  have hsetting : setting.Like setting := ⟨rfl, .of_unplaced rfl⟩
  exact run_like hsetting depth q q rfl between _ _ (Machine.resumes_start m)

/-- A program fails with its first part. -/
theorem run_append_error (hp : run setting depth p stack m = (.error error, m₁)) :
    ∃ m', run setting depth (p ++ q) stack m = (.error error, m')
      ∧ m'.memory = m₁.memory ∧ m'.seed = m₁.seed := by
  have hturn : InTurn (run setting depth) p q stack m := run_inTurn
  rw [InTurn, hp] at hturn
  obtain ⟨result, k, k₁, hjoint, hk₁, hahead⟩ := hturn.exists
  cases hk₁
  exact ⟨k, hjoint, hahead.memory.symm, hahead.seed.symm⟩

/-- A program fails with its second part, maybe at another place. -/
theorem run_append_second_error (hp : run setting depth p stack m = (.ok between, m₁))
    (hq : run setting depth q between (.start m₁.memory m₁.seed) = (.error error, m₂)) :
    ∃ error' m', run setting depth (p ++ q) stack m = (.error error', m')
      ∧ error'.unplaced = error.unplaced ∧ m'.memory = m₂.memory ∧ m'.seed = m₂.seed := by
  have hturn : InTurn (run setting depth) p q stack m := run_inTurn
  obtain ⟨last, k, k', hfresh, -, -⟩ | ⟨error₁, error', k, k', hfresh, hresumed, herror, hk⟩ :=
    run_resumed setting depth q between m₁
  · rw [hq] at hfresh
    cases hfresh
  rw [hq] at hfresh
  cases hfresh
  simp only [InTurn, hp, hresumed] at hturn
  obtain ⟨more, hturn⟩ := hturn
  obtain ⟨result, j, j', hjoint, hj', hahead⟩ := hturn.exists
  cases hj'
  exact ⟨error', j, hjoint, herror.symm, hahead.memory.symm.trans hk.memory,
    hahead.seed.symm.trans hk.seed⟩

/-- A program both parts of which run to an end does so too, in the steps of both. -/
theorem run_append_ok (hp : run setting depth p stack m = (.ok between, m₁))
    (hq : run setting depth q between (.start m₁.memory m₁.seed) = (.ok last, m₂)) :
    ∃ m', run setting depth (p ++ q) stack m = (.ok last, m')
      ∧ m'.memory = m₂.memory ∧ m'.seed = m₂.seed ∧ m'.steps = m₁.steps + m₂.steps := by
  have hturn : InTurn (run setting depth) p q stack m := run_inTurn
  obtain ⟨last, k, k', hfresh, hresumed, hk⟩ | ⟨error, error', k, k', hfresh, -, -, -⟩ :=
    run_resumed setting depth q between m₁
  · rw [hq] at hfresh
    cases hfresh
    simp only [InTurn, hp, hresumed] at hturn
    obtain ⟨result, j, j', hjoint, hj', hahead⟩ := hturn.exists
    cases hj'
    have hcount : j.steps = m₁.steps + m₂.steps := by
      have hsteps := hahead.steps
      have hsteps' := hk.steps
      omega
    exact ⟨j, hjoint, hahead.memory.symm.trans hk.memory, hahead.seed.symm.trans hk.seed, hcount⟩
  · rw [hq] at hfresh
    cases hfresh

end

/-- What a run at once comes to, given the first of two runs and how the second goes on from
    the session and the stack that the first leaves.  It fails like the first, or like the
    second but for the place of the error; otherwise it has the result of the second, and the
    steps of both are counted. -/
def Outcome.InPieces (joint first : Outcome Stack) (second : Session → Stack → Outcome Stack) :
    Prop :=
  match first.result with
  | .error error => joint.result = .error error ∧ joint.session = first.session
  | .ok between =>
    let second := second first.session between
    joint.session = second.session ∧
      match second.result with
      | .error error => ∃ error', joint.result = .error error' ∧ error'.unplaced = error.unplaced
      | .ok last =>
        joint.result = .ok last ∧
          ∃ k l, first.steps = some k ∧ second.steps = some l ∧ joint.steps = some (k + l)

namespace Session

variable {session : Session} {name : Option String} {stack : Stack} {verbosity : Nat}

/-- Definitions change nothing but the library. -/
theorem bound_eq {definitions : List (Lexeme × List Lexeme)}
    (h : ∀ head body, (head, body) ∈ definitions → Reassembles body) :
    session.bound name definitions
      = { session with library := (session.bound name definitions).library } := by
  obtain ⟨-, table, hbound⟩ := @bindAll_eq name _ session h
  rw [hbound]
  rfl

/-- Definitions are bound alike with another memory and other random numbers. -/
theorem bound_restored (session : Session) (memory : Memory) (seed : Nat)
    {definitions : List (Lexeme × List Lexeme)}
    (h : ∀ head body, (head, body) ∈ definitions → Reassembles body) :
    ({ session with memory := memory, seed := seed } : Session).bound name definitions
      = { session.bound name definitions with memory := memory, seed := seed } := by
  have hlibrary :
      (({ session with memory := memory, seed := seed } : Session).bound name definitions).library
        = (session.bound name definitions).library := bound_library rfl h
  have hsession : session.bound name definitions
      = { session with library := (session.bound name definitions).library } := bound_eq h
  rw [bound_eq h, hlibrary, hsession]

/-- A run of nothing finishes, whatever the library. -/
theorem run_nil (session : Session) (m : Machine) :
    StackCalc.run (session.setting verbosity) depthLimit [] stack m
      = (.ok stack, finished ⟨.fresh, session.config, verbosity⟩ 0 stack m) := by
  have hlimit : depthLimit = 3299 + 1 := rfl
  rw [hlimit, StackCalc.run, runFrame_nil]
  rfl

/-- What is settled of a program in two parts, from what it comes to in turn: the first part is
    run in one session, and the second in one with more definitions, if the first part is not
    empty. -/
theorem settle_inPieces {inner outer : Session} {p q : List Node} {m : Machine}
    {second : Session → Stack → Outcome Stack} {remarks remarks₁ : String}
    (houter : outer = { inner with library := outer.library })
    (hcases : outer = inner ∨ p = [])
    (hsecond : ∀ memory seed between, ∃ remarks₂,
      second { inner with memory := memory, seed := seed } between
        = settle { outer with memory := memory, seed := seed } remarks₂
            (StackCalc.run (outer.setting verbosity) depthLimit q between (.start memory seed))) :
    Outcome.InPieces
      (outer.settle remarks
        (StackCalc.run (outer.setting verbosity) depthLimit (p ++ q) stack m))
      (inner.settle remarks₁ (StackCalc.run (inner.setting verbosity) depthLimit p stack m))
      second := by
  have hconfig : outer.config = inner.config := by rw [houter]
  -- The first part sees no difference: there is none, or it runs nothing.
  have hbefore : StackCalc.run (inner.setting verbosity) depthLimit p stack m
      = StackCalc.run (outer.setting verbosity) depthLimit p stack m := by
    obtain rfl | rfl := hcases
    · rfl
    · rw [run_nil, run_nil, hconfig]
  rw [Outcome.InPieces, hbefore]
  cases hp : StackCalc.run (outer.setting verbosity) depthLimit p stack m with
  | mk outcome m₁ =>
    cases outcome with
    | error error =>
      obtain ⟨k, hjoint, hmemory, hseed⟩ := @run_append_error _ _ _ q _ _ _ _ hp
      rw [hjoint]
      obtain rfl | rfl := hcases
      · refine ⟨rfl, ?_⟩
        simp only [settle, hmemory, hseed]
      · rw [run_nil] at hp
        cases hp
    | ok between =>
      obtain ⟨remarks₂, hsecond⟩ := hsecond m₁.memory m₁.seed between
      dsimp only [settle] at hsecond ⊢
      rw [hsecond]
      cases hq : StackCalc.run (outer.setting verbosity) depthLimit q between
        (.start m₁.memory m₁.seed) with
      | mk outcome m₂ =>
        cases outcome with
        | error error =>
          obtain ⟨error', k, hjoint, herror, hmemory, hseed⟩ := run_append_second_error hp hq
          rw [hjoint]
          refine ⟨?_, error', rfl, herror⟩
          simp only [hmemory, hseed]
        | ok last =>
          obtain ⟨k, hjoint, hmemory, hseed, hsteps⟩ := run_append_ok hp hq
          rw [hjoint]
          refine ⟨?_, rfl, m₁.steps, m₂.steps, if_neg (run_frames hp), if_neg (run_frames hq), ?_⟩
          · simp only [hmemory, hseed]
          · rw [← hsteps]
            exact if_neg (run_frames hjoint)

/-- Clauses in two parts are run part by part, unless a term comes before a definition of the
    second part. -/
theorem perform_append (session : Session) (name : Option String) (stack : Stack)
    (verbosity : Nat) {first second : List Clause} (hfirst : WellRead first)
    (hsecond : WellRead second) (hjoint : WellRead (first ++ second))
    (horder : termWords first = [] ∨ definitionsOf second = []) :
    Outcome.InPieces (session.perform name (first ++ second) stack verbosity)
      (session.perform name first stack verbosity)
      (fun session stack => session.perform name second stack verbosity) := by
  obtain ⟨p, hp⟩ := hfirst.assembles name
  obtain ⟨q, hq⟩ := hsecond.assembles name
  have hpq : Assembles (tokens name (termWords (first ++ second))) (p ++ q) := by
    rw [termWords_append, tokens, List.map_append]
    exact hp.append hq
  -- Either the second part binds nothing, or the first part runs nothing.
  have hcases : (session.bound name (definitionsOf first)).bound name (definitionsOf second)
      = session.bound name (definitionsOf first) ∨ p = [] := by
    cases horder with
    | inl hterms =>
      rw [hterms] at hp
      have hnil := assemble_of_assembles hp (.empty name)
      rw [tokens, List.map_nil, assemble_of_assembles .nil] at hnil
      cases hnil
      exact Or.inr rfl
    | inr hterms =>
      rw [hterms]
      exact Or.inl rfl
  obtain ⟨remarks₁, hrun₁⟩ := session.perform_eq hfirst hp stack verbosity
  obtain ⟨remarks, hrun⟩ := session.perform_eq hjoint hpq stack verbosity
  rw [definitionsOf_append, bound_append session hfirst.reassembles] at hrun
  rw [hrun₁, hrun]
  refine settle_inPieces (bound_eq hsecond.reassembles) hcases ?_
  intro memory seed between
  obtain ⟨remarks₂, hrun₂⟩ := perform_eq
    { session.bound name (definitionsOf first) with memory := memory, seed := seed }
    hsecond hq between verbosity
  have hbound := @bound_restored name
    (session.bound name (definitionsOf first)) memory seed _ hsecond.reassembles
  rw [hbound] at hrun₂
  exact ⟨remarks₂, hrun₂⟩

theorem Like.eq {session session' : Session} (h : session.Like session')
    (hlibrary : session.library = session'.library) : session = session' := by
  obtain ⟨library, memory, config, seed⟩ := session
  obtain ⟨library', memory', config', seed'⟩ := session'
  obtain ⟨-, rfl, rfl, rfl⟩ := h
  obtain rfl : library = library' := hlibrary
  rfl

end Session

/-- A run at once that finishes has the result of the second of the two runs. -/
theorem Outcome.InPieces.of_ok {joint first : Outcome Stack}
    {second : Session → Stack → Outcome Stack} {last : Stack} (h : joint.InPieces first second)
    (hjoint : joint.result = .ok last) :
    ∃ between, first.result = .ok between ∧ (second first.session between).result = .ok last
      ∧ joint.session = (second first.session between).session := by
  rw [InPieces] at h
  split at h
  · rw [h.1] at hjoint
    cases hjoint
  · rename_i between hbetween
    obtain ⟨hsession, h⟩ := h
    refine ⟨between, hbetween, ?_, hsession⟩
    revert h
    cases hsecond : (second first.session between).result with
    | error error =>
      intro h
      obtain ⟨error', herror, -⟩ := h
      rw [hjoint] at herror
      cases herror
    | ok last' =>
      intro h
      rw [hjoint] at h
      exact h.1.symm

/-- The second of two runs can be replaced by one that only places tell apart from it. -/
theorem Outcome.InPieces.congr {joint first : Outcome Stack}
    {second second' : Session → Stack → Outcome Stack} (h : joint.InPieces first second)
    (hlike : ∀ session stack, (second session stack).Like (second' session stack))
    (hlibrary : ∀ session stack,
      (second session stack).session.library = (second' session stack).session.library) :
    joint.InPieces first second' := by
  rw [InPieces] at h ⊢
  split at h
  · exact h
  · rename_i between _
    obtain ⟨hresult, hsession, hsteps⟩ := hlike first.session between
    obtain ⟨hjoint, h⟩ := h
    refine ⟨hjoint.trans (hsession.eq (hlibrary ..)), ?_⟩
    obtain ⟨last, hlast, hlast'⟩ | ⟨error, error', herror, herror', hunplaced⟩ := hresult
    · simp only [hlast] at h
      simp only [hlast', ← hsteps]
      exact h
    · simp only [herror] at h
      simp only [herror']
      obtain ⟨error'', hresult, h⟩ := h
      exact ⟨error'', hresult, h.trans hunplaced⟩

/-! ## Texts in two parts -/

section

variable {first second : String} {name : Option String} {clauses clauses' : List Clause}

theorem wellRead_of_parse (h : parse first name = .ok clauses) : WellRead clauses :=
  ((parse_ok_iff (stray_eq_none_of_parse h)).mp h).wellRead fun _ hx => genuine_of_mem_scan hx

/-- Below a text that closes its comments a text has the clauses that it has by itself, apart
    from their places. -/
theorem parse_line (hfirst : parse first name = .ok clauses)
    (hsecond : parse second name = .ok clauses') (hclosed : endsInComment first = false) :
    ∃ below, parse (first ++ "\n" ++ second) name = .ok (clauses ++ below) ∧ WellRead below
      ∧ below.map Clause.unplaced = clauses'.map Clause.unplaced := by
  have hstray := stray_eq_none_of_parse hfirst
  have hstray' := stray_eq_none_of_parse hsecond
  have hreads := (parse_ok_iff hstray).mp hfirst
  have hreads' := (parse_ok_iff hstray').mp hsecond
  obtain ⟨below, hlexemes, hbelow⟩ := lexemes_line hclosed hstray second
  have htext : IsText Lexeme.kind below := by
    have hkinds : below.map Lexeme.kind = (scan second).lexemes.map Lexeme.kind := by
      have hkinds := congrArg (List.map Lexeme.kind) hbelow
      rwa [bareWords, List.map_map, List.map_map] at hkinds
    rw [← isText_map_iff, hkinds, isText_map_iff]
    exact hreads'.isText
  obtain ⟨added, hadded⟩ := Reads.of_isText htext
  refine ⟨added, ?_, ?_, ?_⟩
  · rw [parse_ok_iff ((stray_line hclosed).mpr ⟨hstray, hstray'⟩), hlexemes]
    exact hreads.append hadded
  · refine hadded.wellRead fun x hx => ?_
    have hmem : x ∈ (scan (first ++ "\n" ++ second)).lexemes := by
      rw [hlexemes]
      exact List.mem_append_right _ hx
    exact genuine_of_mem_scan hmem
  · have hunplaced := hadded.unplaced
    rw [hbelow] at hunplaced
    exact hunplaced.unique hreads'.unplaced

end

/-- Running a text in two pieces, the first of which closes its comments and the second of which
    defines nothing, comes to the same as running it at once: the same final stack, memory,
    functions and definitions, and the steps of both; or the same error, but for its place, and
    the same memory. -/
theorem run_in_pieces (session : Session) (first second : String) (name : Option String)
    (stack : Stack) (verbosity : Nat) {clauses clauses' : List Clause}
    (hfirst : parse first name = .ok clauses) (hsecond : parse second name = .ok clauses')
    (hclosed : endsInComment first = false) (hterms : definitionsOf clauses' = []) :
    (session.run (first ++ "\n" ++ second) stack name verbosity).InPieces
      (session.run first stack name verbosity)
      (fun session stack => session.run second stack name verbosity) := by
  obtain ⟨below, hjoint, hreadBelow, hbelow⟩ := parse_line hfirst hsecond hclosed
  have hread := wellRead_of_parse hjoint
  have hread' := wellRead_of_parse hsecond
  have hbelowTerms : definitionsOf below = [] := by
    have hdefinitions := definitionsOf_unplaced below
    rw [hbelow, definitionsOf_unplaced, hterms] at hdefinitions
    exact List.map_eq_nil_iff.mp hdefinitions.symm
  have hpieces := session.perform_append name stack verbosity (wellRead_of_parse hfirst)
    hreadBelow hread (Or.inr hbelowTerms)
  rw [session.run_eq_perform hjoint, session.run_eq_perform hfirst]
  refine hpieces.congr ?_ ?_
  · intro session stack
    rw [session.run_eq_perform hsecond]
    exact Session.perform_like (.refl session) hbelow hreadBelow hread' stack verbosity verbosity
  · intro session stack
    rw [session.run_eq_perform hsecond, Session.perform_library hreadBelow hbelowTerms,
      Session.perform_library hread' hterms]

/-- A definition and a cell in the first piece, a call and an unbound variable in the second. -/
theorem run_in_pieces_unbound :
    ((Session.fresh .default).run ("( f sto x ) 'a" ++ "\n" ++ "f rcl y") [] none 0).InPieces
      ((Session.fresh .default).run "( f sto x ) 'a" [] none 0)
      (fun session stack => session.run "f rcl y" stack none 0) := by
  have hwords : scan "( f sto x ) 'a"
      = ⟨[⟨.definitionStart, "(", 1, 1⟩, ⟨.word, "f", 1, 3⟩, ⟨.store, "sto", 1, 5⟩,
          ⟨.word, "x", 1, 9⟩, ⟨.definitionEnd, ")", 1, 11⟩, ⟨.symbol, "'a", 1, 13⟩], none⟩ := by
    decide +kernel
  have hwords' : scan "f rcl y"
      = ⟨[⟨.word, "f", 1, 1⟩, ⟨.fetch, "rcl", 1, 3⟩, ⟨.word, "y", 1, 7⟩], none⟩ := by
    decide +kernel
  have hfirst : parse "( f sto x ) 'a" none
      = .ok [.definition ⟨.word, "f", 1, 3⟩ [⟨.store, "sto", 1, 5⟩, ⟨.word, "x", 1, 9⟩],
          .term [⟨.symbol, "'a", 1, 13⟩]] := by
    simp only [parse, hwords]
    rfl
  have hsecond : parse "f rcl y" none
      = .ok [.term [⟨.word, "f", 1, 1⟩], .term [⟨.fetch, "rcl", 1, 3⟩, ⟨.word, "y", 1, 7⟩]] := by
    simp only [parse, hwords']
    rfl
  exact run_in_pieces (.fresh .default) _ _ none [] 0 hfirst hsecond (by decide +kernel) rfl

end StackCalc
