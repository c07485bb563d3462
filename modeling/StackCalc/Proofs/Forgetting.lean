/-
  StackCalc.Proofs.Forgetting

  What a session forgets when it is reset.  A `Request` is anything that a session can be
  asked for, and `Session.answers` is all that it says to requests one after the other.
  Requests change the functions of a session only by registering some
  (`behind_functions`), and a reset drops all definitions and the memory, so a session
  that is reset is one that was only asked for the registrations (`reset_eq`).  The random
  numbers are not set back; a request that draws none has the same answer whatever they are
  (`request_sameButSeed`).
-/

import StackCalc.Proofs.Dependence
import StackCalc.Proofs.Pieces
import StackCalc.Proofs.Stores

namespace StackCalc

/-! ## Requests -/

/-- What a session can be asked for: a call, a run of words given one by one or of the text of
    a file, the stack effect of a name, all names, or the reset. -/
inductive Request where
  | call (call : Call)
  | runWords (words : List String) (stack : Stack) (verbosity : Nat)
  | runFile (files : Files) (path : String) (stack : Stack) (verbosity : Nat)
  | signature (name : String)
  | names
  | reset

/-- What a request has for its answer. -/
inductive Answer where
  | stack (stack : Stack)
  | effect (effect : Effect)
  | names (names : List String)
  | done

/-- An outcome with another form of its result. -/
def Outcome.map {α β : Type} (f : α → β) (outcome : Outcome α) : Outcome β :=
  ⟨outcome.result.map f, outcome.session, outcome.printed, outcome.remarks, outcome.steps⟩

namespace Session

/-- The outcome of a call. -/
def reply (session : Session) : Call → Outcome Answer
  | .run source stack name verbosity => (session.run source stack name verbosity).map .stack
  | .apply name stack => (session.apply name stack).map .stack
  | .applyOperation operation stack => (session.applyOperation operation stack).map .stack
  | .define name source => (session.define name source).map fun _ => .done
  | .register name function =>
    match session.register name function with
    | .ok session => session.unchanged (.ok .done)
    | .error failure => session.unchanged (.error (.failure failure))

/-- The outcome of a request. -/
def request (session : Session) : Request → Outcome Answer
  | .call call => session.reply call
  | .runWords words stack verbosity => (session.runWords words stack verbosity).map .stack
  | .runFile files path stack verbosity => (session.runFile files path stack verbosity).map .stack
  | .signature name =>
    session.unchanged ((session.library.signature name).mapError .failure |>.map .effect)
  | .names => session.unchanged (.ok (.names session.library.names))
  | .reset => session.reset.unchanged (.ok .done)

/-- The session behind requests. -/
def behind (session : Session) (requests : List Request) : Session :=
  requests.foldl (fun session request => (session.request request).session) session

/-- What a session answers to requests, one after the other: their results, what is printed,
    what is remarked, and the steps that are counted. -/
def answers (session : Session) :
    List Request → List (Except Error Answer × String × String × Option Nat)
  | [] => []
  | request :: rest =>
    let outcome := session.request request
    (outcome.result, outcome.printed, outcome.remarks, outcome.steps)
      :: outcome.session.answers rest

end Session

/-! ## Registrations -/

/-- A request for the registration of a function. -/
def Request.isRegistration : Request → Bool
  | call (.register ..) => true
  | _ => false

/-- The registrations among requests. -/
def registrations (requests : List Request) : List Request :=
  requests.filter Request.isRegistration

/-- The functions behind a request. -/
def Request.registers (functions : Table Function) : Request → Table Function
  | call (.register name function) =>
    match function.signature.effect with
    | .error _ => functions
    | .ok effect => functions.set name (.native ⟨effect, function.body⟩)
  | _ => functions

/-- A request that is no registration keeps the functions. -/
theorem Request.registers_of_not {request : Request} (h : ¬request.isRegistration = true)
    (functions : Table Function) : request.registers functions = functions := by
  cases request with
  | call asked =>
    cases asked with
    | register name function => exact absurd rfl h
    | _ => rfl
  | _ => rfl

namespace Session

variable {session session' : Session}

/-- Two sessions with the same functions and configuration. -/
structure SameFunctions (session session' : Session) : Prop where
  functions : session.library.functions = session'.library.functions
  config : session.config = session'.config

theorem SameFunctions.refl (session : Session) : session.SameFunctions session := ⟨rfl, rfl⟩

theorem run_sameFunctions (session : Session) (source : String) (stack : Stack)
    (name : Option String) (verbosity : Nat) :
    (session.run source stack name verbosity).session.SameFunctions session := by
  cases hparse : parse source name with
  | error fault =>
    rw [run_of_parse_error session hparse]
    exact .refl session
  | ok clauses =>
    obtain ⟨-, table, program, remarks, -, -, hrun⟩ := session.run_of_parse hparse stack verbosity
    rw [hrun]
    exact ⟨rfl, rfl⟩

theorem define_sameFunctions (session : Session) (name source : String) :
    (session.define name source).session.SameFunctions session := by
  rw [define]
  dsimp only
  split
  · exact .refl session
  · split
    · exact .refl session
    · split
      · exact .refl session
      · exact ⟨rfl, rfl⟩

/-- A registration changes the functions, and nothing else. -/
theorem request_register (session : Session) (name : String) (function : HostFunction) :
    (session.request (.call (.register name function))).session
      = { session with
          library :=
            { session.library with
              functions :=
                Request.registers session.library.functions (.call (.register name function)) } } := by
  simp only [Session.request, reply, register, Request.registers]
  cases function.signature.effect <;> rfl

/-- A request changes the functions of a session only if it registers one. -/
theorem request_functions (session : Session) (request : Request) :
    (session.request request).session.library.functions
        = request.registers session.library.functions
      ∧ (session.request request).session.config = session.config := by
  have hsame : ∀ {session' : Session}, session'.SameFunctions session →
      session'.library.functions = session.library.functions ∧ session'.config = session.config :=
    fun h => ⟨h.functions, h.config⟩
  match request with
  | .call (.run source stack name verbosity) =>
    exact hsame (session.run_sameFunctions source stack name verbosity)
  | .call (.apply name stack) =>
    rw [Session.request, reply, apply]
    split <;> exact ⟨rfl, rfl⟩
  | .call (.applyOperation operation stack) => exact ⟨rfl, rfl⟩
  | .call (.define name source) => exact hsame (session.define_sameFunctions name source)
  | .call (.register name function) =>
    rw [request_register]
    exact ⟨rfl, rfl⟩
  | .runWords words stack verbosity => exact hsame (session.run_sameFunctions ..)
  | .runFile files path stack verbosity =>
    rw [Session.request]
    unfold runFile
    cases files.read (FilePath.normal path) with
    | ok source => exact hsame (session.run_sameFunctions ..)
    | error trouble => exact ⟨rfl, rfl⟩
  | .signature name | .names | .reset => exact ⟨rfl, rfl⟩

/-- Of requests only the registrations count for the functions behind them. -/
theorem behind_functions (session : Session) (requests : List Request) :
    (session.behind requests).library.functions
        = (registrations requests).foldl Request.registers session.library.functions
      ∧ (session.behind requests).config = session.config := by
  induction requests generalizing session with
  | nil => exact ⟨rfl, rfl⟩
  | cons request rest ih =>
    obtain ⟨hfunctions, hconfig⟩ := session.request_functions request
    obtain ⟨ihfunctions, ihconfig⟩ := ih (session.request request).session
    rw [hfunctions] at ihfunctions
    refine ⟨ihfunctions.trans ?_, ihconfig.trans hconfig⟩
    by_cases hregistration : request.isRegistration = true
    · have hfilter : registrations (request :: rest) = request :: registrations rest :=
        List.filter_cons_of_pos hregistration
      rw [hfilter, List.foldl_cons]
    · have hfilter : registrations (request :: rest) = registrations rest :=
        List.filter_cons_of_neg hregistration
      rw [hfilter, Request.registers_of_not hregistration]

/-- Behind registrations a session has other functions, and nothing else has changed. -/
theorem behind_registrations (session : Session) {requests : List Request}
    (h : ∀ request ∈ requests, request.isRegistration = true) :
    session.behind requests
      = { session with
          library :=
            { session.library with
              functions := requests.foldl Request.registers session.library.functions } } := by
  induction requests generalizing session with
  | nil => rfl
  | cons request rest ih =>
    have hrest := ih (session.request request).session
      fun other hother => h other (List.mem_cons_of_mem _ hother)
    have hrequest := h request (List.mem_cons_self ..)
    match request with
    | .call (.register name function) =>
      rw [request_register] at hrest
      rw [behind, List.foldl_cons, request_register]
      exact hrest

/-! ## Random numbers -/

/-- Two sessions that only their random numbers tell apart. -/
structure SameButSeed (session session' : Session) : Prop where
  library : session.library = session'.library
  memory : session.memory = session'.memory
  config : session.config = session'.config

theorem SameButSeed.symm (h : session.SameButSeed session') : session'.SameButSeed session :=
  ⟨h.library.symm, h.memory.symm, h.config.symm⟩

theorem SameButSeed.setting (h : session.SameButSeed session') (verbosity : Nat) :
    session.setting verbosity = session'.setting verbosity := by
  rw [Session.setting, Session.setting, h.library, h.config]

theorem SameButSeed.machine (h : session.SameButSeed session') :
    session.machine.SameButSeed session'.machine :=
  ⟨h.memory, rfl, rfl, rfl⟩

end Session

/-- Two outcomes that only the random numbers of their sessions tell apart. -/
structure Outcome.SameButSeed {α : Type} (x y : Outcome α) : Prop where
  result : x.result = y.result
  session : x.session.SameButSeed y.session
  printed : x.printed = y.printed
  remarks : x.remarks = y.remarks
  steps : x.steps = y.steps

/-- Everything that a call can get to draws no random number. -/
def Call.DrawsNothing (session : Session) : Call → Prop
  | run source _ name _ => ∀ clauses program, parse source name = .ok clauses →
      assemble (Session.tokens name (termWords clauses)) (.empty name) = .ok program →
      StackCalc.DrawsNothing (session.bound name (definitionsOf clauses)).library program.nodes
  | apply name _ => ∀ operation, session.operation name = .ok operation →
      operation.DrawsNothing session.library
  | applyOperation operation _ => operation.DrawsNothing session.library
  | define .. => True
  | register .. => True

/-- Everything that a request can get to draws no random number. -/
def Request.DrawsNothing (session : Session) : Request → Prop
  | call asked => asked.DrawsNothing session
  | runWords words stack verbosity =>
    (Call.run (" ".intercalate words) stack (some Session.argumentsName) verbosity).DrawsNothing
      session
  | runFile files path stack verbosity => ∀ source, files.read (FilePath.normal path) = .ok source →
      (Call.run source stack (some path) verbosity).DrawsNothing session
  | signature _ | names | reset => True

namespace Session

/-- None of the requests draws a random number, one asked after the other. -/
def DrawsNothing (session : Session) : List Request → Prop
  | [] => True
  | request :: rest =>
    request.DrawsNothing session ∧ (session.request request).session.DrawsNothing rest

variable {session session' : Session}

theorem unchanged_sameButSeed {α : Type} (h : session.SameButSeed session')
    (result : Except Error α) :
    (session.unchanged result).SameButSeed (session'.unchanged result) :=
  ⟨rfl, h, rfl, rfl, rfl⟩

theorem map_sameButSeed {α β : Type} {x y : Outcome α} (h : x.SameButSeed y) (f : α → β) :
    (x.map f).SameButSeed (y.map f) :=
  ⟨congrArg (Except.map f) h.result, h.session, h.printed, h.remarks, h.steps⟩

theorem settle_sameButSeed {α : Type} (h : session.SameButSeed session') (remarks : String)
    {x y : Reply α} (hreply : Reply.Related Machine.SameButSeed x y) :
    (session.settle remarks x).SameButSeed (session'.settle remarks y) := by
  obtain ⟨result, m, n, rfl, rfl, hm⟩ := hreply.exists
  refine ⟨rfl, ⟨h.library, hm.memory, h.config⟩, ?_, rfl, ?_⟩
  · simp only [settle, Machine.output, hm.events]
  · simp only [settle, hm.frames, hm.steps]

theorem bind_sameButSeed (h : session.SameButSeed session') (name : String) (program : Program) :
    (session.bind name program).1.SameButSeed (session'.bind name program).1
      ∧ (session.bind name program).2 = (session'.bind name program).2 := by
  refine ⟨⟨congrArg (·.define name program) h.library, h.memory, h.config⟩, ?_⟩
  simp only [bind, h.library, h.config]

theorem bindAll_sameButSeed (h : session.SameButSeed session') (name : Option String)
    (remarks : String) (definitions : List (Lexeme × List Lexeme)) :
    ∃ result bound bound' remarks',
      session.bindAll name remarks definitions = (result, bound, remarks')
        ∧ session'.bindAll name remarks definitions = (result, bound', remarks')
        ∧ bound.SameButSeed bound' := by
  induction definitions generalizing session session' remarks with
  | nil => exact ⟨_, session, session', remarks, rfl, rfl, h⟩
  | cons definition rest ih =>
    obtain ⟨head, body⟩ := definition
    rw [bindAll, bindAll]
    cases assemble (tokens name body) ⟨name, head.line, head.line⟩ with
    | error error => exact ⟨_, session, session', remarks, rfl, rfl, h⟩
    | ok program =>
      -- The rest is read by sessions that are again the same but for their random numbers.
      obtain ⟨hbound, hremark⟩ := bind_sameButSeed h head.text program
      have hrest := ih hbound (remarks ++ (session.bind head.text program).2)
      dsimp only
      rw [← hremark]
      exact hrest

theorem run_sameButSeed (h : session.SameButSeed session') {source : String} {stack : Stack}
    {name : Option String} {verbosity : Nat}
    (hdraws : (Call.run source stack name verbosity).DrawsNothing session) :
    (session.run source stack name verbosity).SameButSeed
      (session'.run source stack name verbosity) := by
  rw [run, run]
  cases hparse : parse source name with
  | error fault => exact unchanged_sameButSeed h _
  | ok clauses =>
    obtain ⟨result, bound, bound', remarks, hbind, hbind', hbound⟩ :=
      bindAll_sameButSeed h name "" (definitionsOf clauses)
    dsimp only
    rw [hbind, hbind']
    cases result with
    | error error => exact ⟨rfl, hbound, rfl, rfl, rfl⟩
    | ok =>
      dsimp only
      cases hassemble : assemble (tokens name (termWords clauses)) (.empty name) with
      | error error => exact ⟨rfl, hbound, rfl, rfl, rfl⟩
      | ok program =>
        have hnodes := hdraws clauses program hparse hassemble
        rw [Session.bound, hbind] at hnodes
        dsimp only
        rw [← hbound.setting verbosity]
        exact settle_sameButSeed hbound remarks
          (StackCalc.run_sameButSeed depthLimit hnodes stack _ _ hbound.machine)

theorem applyOperation_sameButSeed (h : session.SameButSeed session') {operation : Operation}
    (hdraws : operation.DrawsNothing session.library) (stack : Stack) :
    (session.applyOperation operation stack).SameButSeed
      (session'.applyOperation operation stack) := by
  simp only [applyOperation, ← h.setting]
  exact settle_sameButSeed h "" (execute_sameButSeed depthLimit hdraws stack h.machine)

theorem apply_sameButSeed (h : session.SameButSeed session') {name : String} {stack : Stack}
    (hdraws : (Call.apply name stack).DrawsNothing session) :
    (session.apply name stack).SameButSeed (session'.apply name stack) := by
  have hoperation : session'.operation name = session.operation name := by
    rw [operation, operation, h.library]
  rw [apply, apply, hoperation]
  cases hfound : session.operation name with
  | error failure => exact unchanged_sameButSeed h _
  | ok operation => exact applyOperation_sameButSeed h (hdraws operation hfound) stack

theorem define_sameButSeed (h : session.SameButSeed session') (name source : String) :
    (session.define name source).SameButSeed (session'.define name source) := by
  rw [define, define]
  dsimp only
  split
  · exact unchanged_sameButSeed h _
  · split
    · exact unchanged_sameButSeed h _
    · split
      · exact unchanged_sameButSeed h _
      · rename_i program _
        obtain ⟨hbound, hremark⟩ := bind_sameButSeed h name program
        exact ⟨rfl, hbound, rfl, hremark, rfl⟩

theorem register_sameButSeed (h : session.SameButSeed session') (name : String)
    (function : HostFunction) :
    (session.reply (.register name function)).SameButSeed
      (session'.reply (.register name function)) := by
  simp only [reply, register]
  cases function.signature.effect with
  | error trouble => exact unchanged_sameButSeed h _
  | ok effect =>
    have hlibrary : session.library.register name (.native ⟨effect, function.body⟩)
        = session'.library.register name (.native ⟨effect, function.body⟩) := by rw [h.library]
    exact ⟨rfl, ⟨hlibrary, h.memory, h.config⟩, rfl, rfl, rfl⟩

/-- A request that draws no random number has the same outcome whatever the random numbers
    are. -/
theorem request_sameButSeed (h : session.SameButSeed session') {request : Request}
    (hdraws : request.DrawsNothing session) :
    (session.request request).SameButSeed (session'.request request) := by
  match request with
  | .call (.run source stack name verbosity) => exact map_sameButSeed (run_sameButSeed h hdraws) _
  | .call (.apply name stack) => exact map_sameButSeed (apply_sameButSeed h hdraws) _
  | .call (.applyOperation operation stack) =>
    exact map_sameButSeed (applyOperation_sameButSeed h hdraws stack) _
  | .call (.define name source) => exact map_sameButSeed (define_sameButSeed h name source) _
  | .call (.register name function) => exact register_sameButSeed h name function
  | .runWords words stack verbosity => exact map_sameButSeed (run_sameButSeed h hdraws) _
  | .runFile files path stack verbosity =>
    simp only [Session.request]
    unfold runFile
    cases hread : files.read (FilePath.normal path) with
    | ok source => exact map_sameButSeed (run_sameButSeed h (hdraws source hread)) _
    | error trouble => exact map_sameButSeed (unchanged_sameButSeed h _) _
  | .signature name =>
    simp only [Session.request, h.library]
    exact unchanged_sameButSeed h _
  | .names =>
    simp only [Session.request, h.library]
    exact unchanged_sameButSeed h _
  | .reset => exact ⟨rfl, ⟨congrArg Library.forget h.library, rfl, h.config⟩, rfl, rfl, rfl⟩

theorem answers_sameButSeed (h : session.SameButSeed session') {requests : List Request}
    (hdraws : session.DrawsNothing requests) :
    session.answers requests = session'.answers requests := by
  induction requests generalizing session session' with
  | nil => rfl
  | cons request rest ih =>
    have hfirst := request_sameButSeed h hdraws.1
    have hrest := ih hfirst.session hdraws.2
    rw [answers, answers, hfirst.result, hfirst.printed, hfirst.remarks, hfirst.steps, hrest]

end Session

/-! ## The reset -/

/-- A session that is reset is a fresh one that was only asked for the registrations, apart from
    its random numbers. -/
theorem Session.reset_eq (config : Config) (seed seed' : Nat) (history : List Request) :
    (({ Session.fresh config with seed := seed }.behind history).reset).SameButSeed
      ({ Session.fresh config with seed := seed' }.behind (registrations history)) := by
  obtain ⟨hfunctions, hconfig⟩ :=
    Session.behind_functions { Session.fresh config with seed := seed } history
  have hregistered : ∀ request ∈ registrations history, request.isRegistration = true :=
    fun request hrequest => (List.mem_filter.mp hrequest).2
  have hfresh := Session.behind_registrations { Session.fresh config with seed := seed' } hregistered
  constructor
  · rw [hfresh, Session.reset, Library.forget, hfunctions]
    rfl
  · rw [hfresh]
    rfl
  · rw [hfresh]
    exact hconfig

/-- A reset forgets everything but registrations.  Whatever a session was asked for before, and
    however that ended, once it is reset it has the functions, definitions, memory and configuration
    of a fresh session that was only asked for the registrations.  To all later requests that draw
    no random number it gives the same answers and errors, and prints, remarks and counts the
    same. -/
theorem reset_forgets (config : Config) (seed seed' : Nat) (history later : List Request)
    (hlater : ({ Session.fresh config with seed := seed' }.behind
      (registrations history)).DrawsNothing later) :
    (({ Session.fresh config with seed := seed }.behind history).reset).SameButSeed
        ({ Session.fresh config with seed := seed' }.behind (registrations history))
      ∧ (({ Session.fresh config with seed := seed }.behind history).reset).answers later
        = ({ Session.fresh config with seed := seed' }.behind (registrations history)).answers
            later := by
  have hsame := Session.reset_eq config seed seed' history
  exact ⟨hsame, (Session.answers_sameButSeed hsame.symm hlater).symm⟩

/-- A function of the host that halves a number. -/
def halving : Session.HostFunction where
  signature := ⟨[⟨.positional, false, some (.plain .number)⟩], some (.plain .number)⟩
  body := fun
    | [.number x] => .ok [.number (x / 2)]
    | _ => Native.mismatch

/-- A function is registered, a word is defined, and a run that fails stores two numbers. -/
def halvingHistory : List Request :=
  [.call (.register "half" halving), .call (.define "sq" "dup x"),
    .call (.run "2 sa 7 sto seven drop" [] none 0)]

/-- Of such a history the registration is left: the word stands for nothing, the slot holds a zero
    again, and the function can be called. -/
theorem reset_forgets_halving :
    ({ Session.fresh .default with seed := 1 }.behind (registrations halvingHistory)).DrawsNothing
        [.call (.apply "sq" [.number 3]), .call (.run "_a half" [] none 0)]
      ∧ ({ Session.fresh .default with seed := 0 }.behind halvingHistory).reset.answers
          [.call (.apply "sq" [.number 3]), .call (.run "_a half" [] none 0)]
        = ({ Session.fresh .default with seed := 1 }.behind (registrations halvingHistory)).answers
          [.call (.apply "sq" [.number 3]), .call (.run "_a half" [] none 0)] := by
  have hlater : ({ Session.fresh .default with seed := 1 }.behind
      (registrations halvingHistory)).DrawsNothing
        [.call (.apply "sq" [.number 3]), .call (.run "_a half" [] none 0)] := by
    rw [Session.DrawsNothing, Session.DrawsNothing, Session.DrawsNothing]
    refine ⟨?_, ?_, trivial⟩
    · intro operation hoperation
      -- Without its definition the word stands for nothing.
      cases hoperation
    · intro clauses program hparse hassemble
      have hwords : scan "_a half" = ⟨[⟨.word, "_a", 1, 1⟩, ⟨.word, "half", 1, 4⟩], none⟩ := by
        decide +kernel
      have hclauses : parse "_a half" none
          = .ok [.term [⟨.word, "_a", 1, 1⟩], .term [⟨.word, "half", 1, 4⟩]] := by
        simp only [parse, hwords]
        rfl
      cases hclauses.symm.trans hparse
      obtain ⟨place, place', hnodes⟩ : ∃ place place',
          program.nodes = [.word "_a" place, .word "half" place'] := by
        cases hassemble
        exact ⟨_, _, rfl⟩
      rw [hnodes]
      refine drawsNothing_of_plainWords fun node hnode => ?_
      simp only [List.mem_cons, List.not_mem_nil, or_false] at hnode
      rcases hnode with rfl | rfl
      · exact Node.isPlainWord_of_resolve rfl (by simp) (by simp)
      · exact Node.isPlainWord_of_resolve rfl (by simp) (by simp)
  exact ⟨hlater, (reset_forgets .default 0 1 halvingHistory _ hlater).2⟩

end StackCalc
