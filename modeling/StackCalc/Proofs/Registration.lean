/-
  StackCalc.Proofs.Registration

  When a registered function takes effect.  A word is looked up under the name that it stands
  for, a function is registered under the name that is given.  If that name stands for itself,
  no built-in operation, command or definition comes before the function, and every word for the
  name calls it until the name is registered again (`Session.calls_of_functions`).  The name of a
  built-in operation in another spelling stands for that operation: nothing is ever looked up
  under it, and a session with a function registered there answers every request as if there
  were none (`Session.answers_withFunctions`).  Only the table itself shows that it is there.
-/

import StackCalc.Proofs.Forgetting
import StackCalc.Proofs.HostFunctions

namespace StackCalc

/-! ## Names -/

namespace Builtin

/-- What a name stands for stands for itself. -/
theorem target_target (name : String) : target (target name) = target name := by
  have haliases : ∀ entry ∈ aliases, Table.find? entry.2 aliases = none := by decide
  cases hfind : Table.find? name aliases with
  | none => simp only [target, hfind, Option.getD_none]
  | some other =>
    have hother := haliases _ (Table.mem_of_find? hfind)
    simp only [target, hfind, hother, Option.getD_some, Option.getD_none]

/-- A name that stands for another one is listed with it. -/
theorem mem_aliases_of_target_ne {name : String} (h : target name ≠ name) :
    name ∈ aliases.map (·.1) := by
  cases hfind : Table.find? name aliases with
  | none => exact absurd (by rw [target, hfind, Option.getD_none]) h
  | some other => exact List.mem_map_of_mem (Table.mem_of_find? hfind)

end Builtin

/-! ## Tables that words cannot tell apart -/

/-- Two tables of functions with the same entries for all names that words stand for. -/
def Table.SameForWords (functions table : Table Function) : Prop :=
  ∀ word, functions.get? (Builtin.target word) = table.get? (Builtin.target word)

theorem Table.SameForWords.set {functions table : Table Function}
    (h : functions.SameForWords table) (name : String) (function : Function) :
    (functions.set name function).SameForWords (table.set name function) := by
  intro word
  rw [get?_set, get?_set, h word]

/-- No word is looked up under a name that stands for another one. -/
theorem Table.sameForWords_set (functions : Table Function) {name : String}
    (h : Builtin.target name ≠ name) (function : Function) :
    functions.SameForWords (functions.set name function) := by
  intro word
  have hword : Builtin.target word ≠ name := by
    rintro rfl
    exact h (Builtin.target_target word)
  rw [get?_set, if_neg hword]

/-- A request keeps every table of functions, or it registers a function whose signature is
    accepted. -/
theorem Request.registers_cases (request : Request) :
    (∀ functions, request.registers functions = functions)
      ∨ ∃ name function effect, request = call (.register name function)
        ∧ function.signature.effect = .ok effect
        ∧ ∀ functions, request.registers functions
          = functions.set name (.native ⟨effect, function.body⟩) := by
  by_cases hregistration : request.isRegistration = true
  · match request with
    | call (.register name function) =>
      cases heffect : function.signature.effect with
      | error trouble => exact Or.inl fun functions => by simp only [registers, heffect]
      | ok effect =>
        refine Or.inr ⟨name, function, effect, rfl, heffect, fun functions => ?_⟩
        simp only [registers, heffect]
  · exact Or.inl (registers_of_not hregistration)

/-- The same registrations keep tables the same for words. -/
theorem Request.registers_sameForWords {functions table : Table Function}
    (h : functions.SameForWords table) (request : Request) :
    (request.registers functions).SameForWords (request.registers table) := by
  obtain hkept | ⟨name, function, effect, -, -, hset⟩ := request.registers_cases
  · rw [hkept, hkept]
    exact h
  · rw [hset, hset]
    exact h.set name _

/-- The names of a table are those that have a value. -/
theorem Table.mem_names_iff {α : Type} {table : Table α} {name : String} :
    name ∈ table.names ↔ (table.get? name).isSome := by
  obtain ⟨entries⟩ := table
  simp only [names, get?]
  induction entries with
  | nil => simp only [List.map_nil, List.not_mem_nil, find?, Option.isSome_none, Bool.false_eq_true]
  | cons entry rest ih =>
    obtain ⟨key, value⟩ := entry
    rw [List.map_cons, List.mem_cons, find?]
    by_cases hkey : key = name
    · rw [if_pos hkey]
      exact ⟨fun _ => rfl, fun _ => Or.inl hkey.symm⟩
    · rw [if_neg hkey, ih, or_iff_right (Ne.symm hkey)]

theorem nodup_eraseDups {α : Type} [DecidableEq α] (xs : List α) : xs.eraseDups.Nodup := by
  match xs with
  | [] => exact List.nodup_nil
  | x :: xs =>
    rw [List.eraseDups_cons, List.nodup_cons, List.mem_eraseDups]
    exact ⟨by simp, nodup_eraseDups (xs.filter fun y => !y == x)⟩
termination_by xs.length
decreasing_by exact Nat.lt_succ_of_le (List.length_filter_le _ _)

/-- Lists of the same names are the same once they are sorted without repetitions. -/
theorem sorted_eq_of_mem_iff {xs ys : List String} (h : ∀ name, name ∈ xs ↔ name ∈ ys) :
    xs.eraseDups.mergeSort (· ≤ ·) = ys.eraseDups.mergeSort (· ≤ ·) := by
  have hsorted : ∀ zs : List String, (zs.mergeSort (· ≤ ·)).Pairwise fun a b => decide (a ≤ b) :=
    List.pairwise_mergeSort (fun a b c => by simpa using String.le_trans)
      fun a b => by simpa using String.le_total a b
  have hsame : xs.eraseDups.Perm ys.eraseDups :=
    (List.perm_ext_iff_of_nodup (nodup_eraseDups xs) (nodup_eraseDups ys)).mpr fun name => by
      rw [List.mem_eraseDups, List.mem_eraseDups, h]
  refine List.Perm.eq_of_pairwise (fun a b _ _ hab hba => ?_) (hsorted _) (hsorted _) ?_
  · exact String.le_antisymm (of_decide_eq_true hab) (of_decide_eq_true hba)
  · exact (List.mergeSort_perm ..).trans (hsame.trans (List.mergeSort_perm ..).symm)

variable {library : Library} {table : Table Function}

namespace Library

/-- A library with another table of functions. -/
def withFunctions (library : Library) (table : Table Function) : Library :=
  { library with functions := table }

theorem resolve_withFunctions (h : library.functions.SameForWords table) (word : String)
    (place : Option Place) :
    (library.withFunctions table).resolve word place = library.resolve word place := by
  simp only [resolve, withFunctions, h word]

theorem signature_withFunctions (h : library.functions.SameForWords table) (word : String) :
    (library.withFunctions table).signature word = library.signature word := by
  simp only [signature, withFunctions, h word]

theorem isBuiltin_withFunctions (h : library.functions.SameForWords table) (word : String) :
    (library.withFunctions table).isBuiltin word = library.isBuiltin word := by
  simp only [isBuiltin, Table.contains, withFunctions, h word]

theorem warning?_withFunctions (h : library.functions.SameForWords table) (word : String) :
    (library.withFunctions table).warning? word = library.warning? word := by
  rw [warning?, warning?, isBuiltin_withFunctions h]
  rfl

/-- A name under which no word is looked up is listed anyway, with what it stands for. -/
theorem names_withFunctions (h : library.functions.SameForWords table) :
    (library.withFunctions table).names = library.names := by
  refine sorted_eq_of_mem_iff fun name => ?_
  by_cases hname : Builtin.target name = name
  · have hfunctions := h name
    rw [hname] at hfunctions
    simp only [List.mem_append, Table.mem_names_iff, withFunctions, hfunctions]
  · simp only [List.mem_append, Builtin.mem_aliases_of_target_ne hname, or_true, true_or]

end Library

/-! ## Evaluation -/

section

variable {config : Config} {verbosity : Nat} {nested : Nested}

theorem executeNode_withFunctions (h : library.functions.SameForWords table) (node : Node)
    (stack : Stack) (m : Machine) :
    executeNode ⟨library.withFunctions table, config, verbosity⟩ nested node stack m
      = executeNode ⟨library, config, verbosity⟩ nested node stack m := by
  cases node with
  | word word place =>
    rw [executeNode, executeNode, Library.resolve_withFunctions h]
    rfl
  | _ => rfl

theorem stepNode_withFunctions (h : library.functions.SameForWords table) (node : Node)
    (stack : Stack) (m : Machine) :
    stepNode ⟨library.withFunctions table, config, verbosity⟩ nested node stack m
      = stepNode ⟨library, config, verbosity⟩ nested node stack m := by
  cases node with
  | branch test consequent alternative place => rfl
  | _ => simp only [stepNode, executeNode_withFunctions h]

theorem runFrame_withFunctions (h : library.functions.SameForWords table) (step : Nat)
    (nodes : List Node) (stack : Stack) (m : Machine) :
    runFrame ⟨library.withFunctions table, config, verbosity⟩ nested step nodes stack m
      = runFrame ⟨library, config, verbosity⟩ nested step nodes stack m := by
  induction nodes using frameInduction generalizing step stack m with
  | nil =>
    rw [runFrame_nil, runFrame_nil]
    rfl
  | cons node rest ih =>
    -- Traces look at the definitions only, and these are the same.
    have htraced : traced ⟨library.withFunctions table, config, verbosity⟩ step (node :: rest) stack m
        = traced ⟨library, config, verbosity⟩ step (node :: rest) stack m := rfl
    rw [runFrame_cons, runFrame_cons, htraced, stepNode_withFunctions h]
    split
    · rfl
    · rename_i next front k hstep
      exact ih front (stepNode_size hstep) (step + 1) next k

theorem run_withFunctions (h : library.functions.SameForWords table) (config : Config)
    (verbosity depth : Nat) :
    run ⟨library.withFunctions table, config, verbosity⟩ depth
      = run ⟨library, config, verbosity⟩ depth := by
  induction depth with
  | zero => rfl
  | succ depth ih =>
    funext nodes stack m
    rw [run, run, ih]
    exact runFrame_withFunctions h 0 nodes stack m

end

/-! ## Answers -/

namespace Session

variable {session : Session}

/-- A session with another table of functions. -/
def withFunctions (session : Session) (table : Table Function) : Session :=
  { session with library := session.library.withFunctions table }

end Session

/-- An outcome with another table of functions in its session. -/
def Outcome.withFunctions {α : Type} (outcome : Outcome α) (table : Table Function) : Outcome α :=
  { outcome with session := outcome.session.withFunctions table }

namespace Session

variable {session : Session}

theorem bind_withFunctions (h : session.library.functions.SameForWords table) (name : String)
    (program : Program) :
    (session.withFunctions table).bind name program
      = ((session.bind name program).1.withFunctions table, (session.bind name program).2) := by
  simp only [bind, withFunctions, Library.warning?_withFunctions h]
  rfl

theorem bindAll_withFunctions (h : session.library.functions.SameForWords table)
    (name : Option String) (remarks : String) (definitions : List (Lexeme × List Lexeme)) :
    (session.withFunctions table).bindAll name remarks definitions
      = ((session.bindAll name remarks definitions).1,
          (session.bindAll name remarks definitions).2.1.withFunctions table,
          (session.bindAll name remarks definitions).2.2) := by
  induction definitions generalizing session remarks with
  | nil => rfl
  | cons definition rest ih =>
    obtain ⟨head, body⟩ := definition
    rw [bindAll, bindAll]
    cases assemble (tokens name body) ⟨name, head.line, head.line⟩ with
    | error error => rfl
    | ok program =>
      dsimp only
      rw [bind_withFunctions h]
      have hbound : (session.bind head.text program).1.library.functions.SameForWords table := h
      exact ih hbound _

theorem bindAll_functions (name : Option String) (remarks : String)
    (definitions : List (Lexeme × List Lexeme)) :
    (session.bindAll name remarks definitions).2.1.library.functions
      = session.library.functions := by
  induction definitions generalizing session remarks with
  | nil => rfl
  | cons definition rest ih =>
    obtain ⟨head, body⟩ := definition
    rw [bindAll]
    split
    · rfl
    · exact ih _

theorem run_withFunctions (h : session.library.functions.SameForWords table) (source : String)
    (stack : Stack) (name : Option String) (verbosity : Nat) :
    (session.withFunctions table).run source stack name verbosity
      = (session.run source stack name verbosity).withFunctions table := by
  rw [run, run]
  cases parse source name with
  | error fault => rfl
  | ok clauses =>
    dsimp only
    have hfunctions := session.bindAll_functions name "" (definitionsOf clauses)
    rw [bindAll_withFunctions h]
    rcases hbind : session.bindAll name "" (definitionsOf clauses) with
      ⟨error | _, bound, remarks⟩
    · rfl
    · rw [hbind] at hfunctions
      dsimp only at hfunctions ⊢
      cases assemble (tokens name (termWords clauses)) (.empty name) with
      | error error => rfl
      | ok program =>
        have hbound : bound.library.functions.SameForWords table := hfunctions.symm ▸ h
        have hrun := StackCalc.run_withFunctions hbound bound.config verbosity depthLimit
        simp only [setting, withFunctions, hrun]
        rfl

theorem applyOperation_withFunctions (h : session.library.functions.SameForWords table)
    (operation : Operation) (stack : Stack) :
    (session.withFunctions table).applyOperation operation stack
      = (session.applyOperation operation stack).withFunctions table := by
  have hrun := StackCalc.run_withFunctions h session.config 0 depthLimit
  simp only [applyOperation, setting, withFunctions, hrun]
  rfl

theorem define_withFunctions (h : session.library.functions.SameForWords table)
    (name source : String) :
    (session.withFunctions table).define name source
      = (session.define name source).withFunctions table := by
  rw [define, define]
  dsimp only
  split
  · rfl
  · split
    · rfl
    · split
      · rfl
      · rw [bind_withFunctions h]
        rfl

/-- A request has the same outcome whatever is registered under names that no word is looked up
    under. -/
theorem request_withFunctions (h : session.library.functions.SameForWords table)
    (request : Request) :
    (session.withFunctions table).request request
      = (session.request request).withFunctions (request.registers table) := by
  have hlibrary : (session.withFunctions table).library = session.library.withFunctions table := rfl
  match request with
  | .call (.run source stack name verbosity) =>
    exact congrArg (Outcome.map Answer.stack) (run_withFunctions h source stack name verbosity)
  | .call (.apply name stack) =>
    have hoperation : (session.withFunctions table).operation name = session.operation name :=
      Library.resolve_withFunctions h name none
    simp only [Session.request, reply, apply, hoperation]
    cases session.operation name with
    | error failure => rfl
    | ok operation => exact congrArg (Outcome.map Answer.stack) (applyOperation_withFunctions h operation stack)
  | .call (.applyOperation operation stack) =>
    exact congrArg (Outcome.map Answer.stack) (applyOperation_withFunctions h operation stack)
  | .call (.define name source) =>
    exact congrArg (Outcome.map fun _ => Answer.done) (define_withFunctions h name source)
  | .call (.register name function) =>
    simp only [Session.request, reply, register, Request.registers]
    cases function.signature.effect <;> rfl
  | .runWords words stack verbosity =>
    exact congrArg (Outcome.map Answer.stack) (run_withFunctions h ..)
  | .runFile files path stack verbosity =>
    simp only [Session.request]
    unfold runFile
    cases files.read (FilePath.normal path) with
    | ok source => exact congrArg (Outcome.map Answer.stack) (run_withFunctions h ..)
    | error trouble => rfl
  | .signature name =>
    simp only [Session.request, hlibrary, Library.signature_withFunctions h]
    rfl
  | .names =>
    simp only [Session.request, hlibrary, Library.names_withFunctions h]
    rfl
  | .reset => rfl

/-- A session answers all requests alike, whatever is registered under names that no word is
    looked up under. -/
theorem answers_withFunctions (h : session.library.functions.SameForWords table)
    (requests : List Request) :
    (session.withFunctions table).answers requests = session.answers requests := by
  induction requests generalizing session table with
  | nil => rfl
  | cons request rest ih =>
    obtain ⟨hfunctions, -⟩ := session.request_functions request
    have hnext : (session.request request).session.library.functions.SameForWords
        (request.registers table) := by
      rw [hfunctions]
      exact request.registers_sameForWords h
    rw [answers, answers, request_withFunctions h]
    exact congrArg _ (ih hnext)

end Session

/-! ## Histories -/

/-- A request that registers a function under a name, with a signature that is accepted. -/
def Request.Rebinds (name : String) : Request → Prop
  | call (.register given function) =>
    given = name ∧ ∃ effect, function.signature.effect = .ok effect
  | _ => False

theorem Request.get?_registers {name : String} {request : Request} (h : ¬request.Rebinds name)
    (functions : Table Function) :
    (request.registers functions).get? name = functions.get? name := by
  obtain hkept | ⟨given, function, effect, rfl, heffect, hset⟩ := request.registers_cases
  · rw [hkept]
  · have hother : name ≠ given := fun hname => h ⟨hname.symm, effect, heffect⟩
    rw [hset, Table.get?_set, if_neg hother]

/-- The function of a name is kept until the name is registered again. -/
theorem Session.get?_behind {name : String} {requests : List Request} (session : Session)
    (h : ∀ request ∈ requests, ¬request.Rebinds name) :
    (session.behind requests).library.functions.get? name
      = session.library.functions.get? name := by
  induction requests generalizing session with
  | nil => rfl
  | cons request rest ih =>
    obtain ⟨hfirst, hrest⟩ := List.forall_mem_cons.mp h
    obtain ⟨hfunctions, -⟩ := session.request_functions request
    calc ((session.request request).session.behind rest).library.functions.get? name
        = (session.request request).session.library.functions.get? name := ih _ hrest
      _ = session.library.functions.get? name := by
        rw [hfunctions, Request.get?_registers hfirst]

/-! ## Programs that requests run -/

/-- The first frame of a run. -/
def Frame.first (nodes : List Node) (stack : Stack) (m : Machine) : Frame :=
  ⟨depthLimit - 1, 0, nodes, stack, m⟩

namespace Session

variable {session : Session}

/-- The first frame of the program that a request runs, and the setting of the run: that of a
    text, under the definitions that it leaves, or that of a definition that is applied. -/
inductive Begins (session : Session) : Request → Setting → Frame → Prop
  | run {source : String} {stack : Stack} {name : Option String} {verbosity : Nat}
      {clauses : List Clause} {program : Program} (parsed : parse source name = .ok clauses)
      (assembled : assemble (tokens name (termWords clauses)) (.empty name) = .ok program) :
      Begins session (.call (.run source stack name verbosity))
        ((session.bound name (definitionsOf clauses)).setting verbosity)
        (.first program.nodes stack session.machine)
  | runWords {words : List String} {stack : Stack} {verbosity : Nat} {setting : Setting}
      {f : Frame}
      (begins : Begins session
        (.call (.run (" ".intercalate words) stack (some argumentsName) verbosity)) setting f) :
      Begins session (.runWords words stack verbosity) setting f
  | runFile {files : Files} {path source : String} {stack : Stack} {verbosity : Nat}
      {setting : Setting} {f : Frame} (read : files.read (FilePath.normal path) = .ok source)
      (begins : Begins session (.call (.run source stack (some path) verbosity)) setting f) :
      Begins session (.runFile files path stack verbosity) setting f
  | applyOperation {name : String} {program : Program} {stack : Stack} :
      Begins session (.call (.applyOperation ⟨name, .definition program⟩ stack))
        (session.setting 0) (.first program.nodes stack session.machine)
  | apply {name : String} {operation : Operation} {stack : Stack} {setting : Setting} {f : Frame}
      (resolved : session.operation name = .ok operation)
      (begins : Begins session (.call (.applyOperation operation stack)) setting f) :
      Begins session (.call (.apply name stack)) setting f

variable {request : Request} {setting : Setting} {f : Frame}

/-- A request that runs a program has the result of its first frame. -/
theorem Begins.result_eq (h : session.Begins request setting f) :
    (session.request request).result = (f.run setting).1.map .stack := by
  induction h with
  | @run source stack name verbosity clauses program parsed assembled =>
    obtain ⟨⟨remarks, hbind⟩, table, hbound⟩ := @bindAll_eq name _ session
      fun head body hmem => (items_of_parse parsed hmem).elim reassembles_of_items
    rw [hbound] at hbind ⊢
    simp only [Session.request, reply, Session.run, parsed, hbind, assembled]
    rfl
  | runWords begins ih => exact ih
  | @runFile files path source stack verbosity _ _ read begins ih =>
    have hfile : session.runFile files path stack verbosity
        = session.run source stack (some path) verbosity := by
      unfold Session.runFile
      rw [read]
    rw [Session.request, hfile]
    exact ih
  | applyOperation => rfl
  | apply resolved begins ih =>
    rw [Session.request, reply, Session.apply, resolved]
    exact ih

/-- The program of a request is run with the functions of the session. -/
theorem Begins.functions_eq (h : session.Begins request setting f) :
    setting.library.functions = session.library.functions := by
  induction h with
  | run => exact session.bindAll_functions ..
  | runWords _ ih | runFile _ _ ih | apply _ _ ih => exact ih
  | applyOperation => rfl

end Session

/-! ## Words that call a function of the host -/

variable {setting : Setting} {word : String} {operation : Native}

/-- A word that is looked up under the name of a function of the host stands for it, whatever
    commands and definitions there are. -/
theorem Library.resolve_native
    (h : library.functions.get? (Builtin.target word) = some (.native operation))
    (place : Option Place) :
    library.resolve word place = .ok ⟨word, .function (Builtin.target word) (.native operation)⟩ := by
  simp only [resolve, h]

theorem executeNode_native {nested : Nested} {place : Place} {stack : Stack} {m : Machine}
    (h : setting.library.functions.get? (Builtin.target word) = some (.native operation)) :
    executeNode setting nested (.word word place) stack m
      = (applyNative operation word stack, m) := by
  rw [executeNode, Library.resolve_native h]
  rfl

/-- The outcome of a frame that comes to a word for a function of the host: the function is
    applied to the stack of the frame.  The frame goes on with the stack behind it, or ends with
    its error, blamed on the word. -/
def Frame.calling (setting : Setting) (operation : Native) (word : String) (place : Place)
    (rest : List Node) (f : Frame) : Reply Stack :=
  match applyNative operation word f.stack with
  | .error error => (.error (error.blamedOn word (some place) f.stack), f.poised setting)
  | .ok next => Frame.run setting ⟨f.depth, f.step + 1, rest, next, f.poised setting⟩

theorem Frame.run_native {f : Frame} {place : Place} {rest : List Node}
    (h : setting.library.functions.get? (Builtin.target word) = some (.native operation))
    (queue : f.queue = .word word place :: rest) :
    f.run setting = f.calling setting operation word place rest := by
  rw [run, queue, runFrame_cons, stepNode_of_ne_branch _ _ (by simp), executeNode_native h, calling,
    poised, queue]
  cases applyNative operation word f.stack with
  | error error => rfl
  | ok next => rfl

namespace Session

/-- A word calls a function of the host.  The stack effect of the word is that of the function,
    and the word applied by its name is the function.  Whatever is defined, a step on the word
    applies the function to the stack.  And when any request runs a program, which gives the
    request its result, every frame that comes to the word does so, at any nesting in the runs of
    definitions and blocks. -/
structure Calls (session : Session) (word : String) (operation : Native) : Prop where
  signature : session.library.signature word = .ok operation.effect
  apply : ∀ stack, session.apply word stack = session.unchanged (applyNative operation word stack)
  step : ∀ table verbosity nested place stack m,
    executeNode ((session.withDefinitions table).setting verbosity) nested (.word word place) stack m
      = (applyNative operation word stack, m)
  frames : ∀ request setting f, session.Begins request setting f →
    (session.request request).result = (f.run setting).1.map .stack ∧
      ∀ inner place rest, f.Reaches setting inner → inner.queue = .word word place :: rest →
        inner.run setting = inner.calling setting operation word place rest

/-- A word calls the function that the table has for the name that the word stands for. -/
theorem calls_of_functions {session : Session}
    (h : session.library.functions.get? (Builtin.target word) = some (.native operation)) :
    session.Calls word operation where
  signature := by
    simp only [Library.signature, h]
    rfl
  apply stack := by
    rw [Session.apply, Session.operation, Library.resolve_native h]
    rfl
  step table verbosity nested place stack m := executeNode_native h
  frames request setting f begins := by
    refine ⟨begins.result_eq, fun inner place rest _ queue => ?_⟩
    rw [← begins.functions_eq] at h
    exact Frame.run_native h queue

end Session

/-- A registration takes effect if the name stands for itself.  A function whose signature is
    accepted is registered under any name.  If the name stands for itself, then behind all
    requests that do not register it again, every word that stands for it calls the function,
    whatever built-in operations, commands and definitions there are.  If the name stands for
    another one, the function is never called: the session has the same answers to all requests
    as without the registration. -/
theorem registration_takes_effect (session : Session) (name : String)
    (function : Session.HostFunction) (effect : Effect)
    (heffect : function.signature.effect = .ok effect) :
    ∃ registered, session.register name function = .ok registered ∧
      (Builtin.target name = name →
        ∀ requests, (∀ request ∈ requests, ¬request.Rebinds name) →
          ∀ word, Builtin.target word = name →
            (registered.behind requests).Calls word ⟨effect, function.body⟩) ∧
      (Builtin.target name ≠ name →
        ∀ requests, registered.answers requests = session.answers requests) := by
  refine ⟨_, session.register_of_effect name heffect, ?_, ?_⟩
  · intro _ requests hrequests word hword
    apply Session.calls_of_functions
    rw [hword, Session.get?_behind _ hrequests]
    exact (Table.get?_set ..).trans (if_pos rfl)
  · intro hname requests
    exact Session.answers_withFunctions (session.library.functions.sameForWords_set hname _) requests

/-- A function of the host that takes a number three times. -/
def tripling : Session.HostFunction where
  signature := ⟨[⟨.positional, false, some (.plain .real)⟩], some (.plain .real)⟩
  body := fun
    | [.number x] => .ok [.number (x * 3)]
    | _ => Native.mismatch

/-- The name of a built-in function is defined, and another function is registered. -/
def addHistory : List Request :=
  [.call (.define "add" "1 sub"), .reset, .call (.register "half" halving),
    .call (.run "( add 2 x ) 1 2 +" [] none 0)]

/-- Registered as `add`, the function is called by `+`, also behind a definition of the name.
    Registered as `+`, it leaves the stack effect that is reported. -/
theorem registration_takes_effect_add :
    (∃ registered, (Session.fresh .default).register "add" tripling = .ok registered ∧
      (registered.behind addHistory).apply "+" [.number 7, .number 2]
        = (registered.behind addHistory).unchanged (.ok [.number (7 * 3), .number 2])) ∧
    ∃ registered, (Session.fresh .default).register "+" tripling = .ok registered ∧
      registered.answers [.signature "+"] = (Session.fresh .default).answers [.signature "+"] := by
  have heffect : tripling.signature.effect = .ok ⟨some [.real], some [.real]⟩ := rfl
  constructor
  · obtain ⟨registered, hregister, hcalls, -⟩ :=
      registration_takes_effect (Session.fresh .default) "add" tripling _ heffect
    have hhistory : ∀ request ∈ addHistory, ¬request.Rebinds "add" := by
      simp [addHistory, Request.Rebinds]
    exact ⟨registered, hregister, (hcalls rfl addHistory hhistory "+" rfl).apply _⟩
  · obtain ⟨registered, hregister, -, hanswers⟩ :=
      registration_takes_effect (Session.fresh .default) "+" tripling _ heffect
    exact ⟨registered, hregister, hanswers (by decide) _⟩

/-- Not every registration takes effect: behind that of a function as `+`, the word still has the
    stack effect of the addition. -/
theorem registration_not_always_seen :
    ¬∀ (session : Session) (name : String) (function : Session.HostFunction) (effect : Effect),
      function.signature.effect = .ok effect →
      ∃ registered, session.register name function = .ok registered ∧
        ∀ requests, (∀ request ∈ requests, ¬request.Rebinds name) →
          (registered.behind requests).Calls name ⟨effect, function.body⟩ := by
  intro hall
  obtain ⟨registered, hregister, hcalls⟩ :=
    hall (Session.fresh .default) "+" tripling ⟨some [.real], some [.real]⟩ rfl
  obtain rfl := Except.ok.inj hregister
  have hreported := (hcalls [] (by simp)).signature
  cases hreported

end StackCalc
