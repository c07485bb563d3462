/-
  StackCalc.Proofs.Stores

  What the memory holds.  Some steps store the cell on top of their stack, in a slot or
  under a name, and no other step changes the memory; a step that fails stores nothing.
  So the memory behind a run is the one before it with the stores of its steps made in
  order, and the last one counts (`run_memory`), also if the run fails: what was stored
  before the failure is kept.  The same goes for a whole history of calls on a session
  (`memory_of_history`).
-/

import StackCalc.Proofs.Ending
import StackCalc.Proofs.Reachability
import StackCalc.Proofs.Steps
import StackCalc.Session

namespace StackCalc

/-! ## Stores -/

/-- A cell that is stored under a name, or in a slot. -/
inductive Write where
  | named (name : String) (cell : Cell)
  | inSlot (slot : Slot) (cell : Cell)
deriving DecidableEq, Repr

namespace Write

/-- The cell that is stored. -/
def cell : Write → Cell
  | named _ cell => cell
  | inSlot _ cell => cell

/-- The memory behind a store. -/
def apply (memory : Memory) : Write → Memory
  | named name cell => memory.setValue name cell
  | inSlot slot cell => memory.setSlot slot cell

/-- The cell that is stored under a name. -/
def value? (name : String) : Write → Option Cell
  | named other cell => if name = other then some cell else none
  | inSlot .. => none

/-- The cell that is stored in a slot. -/
def slotValue? (target : Slot) : Write → Option Cell
  | named .. => none
  | inSlot other cell => if target = other then some cell else none

theorem value?_apply (w : Write) (memory : Memory) (name : String) :
    (w.apply memory).value? name = (w.value? name).or (memory.value? name) := by
  cases w with
  | named other cell =>
    rw [apply, value?, Memory.value?_setValue]
    split <;> rfl
  | inSlot other cell => exact Memory.value?_setSlot ..

theorem slot_apply (w : Write) (memory : Memory) (target : Slot) :
    (w.apply memory).slot target = (w.slotValue? target).getD (memory.slot target) := by
  cases w with
  | named other cell => exact Memory.slot_setValue ..
  | inSlot other cell =>
    rw [apply, slotValue?, Memory.slot_setSlot]
    split <;> rfl

end Write

/-- The memory behind stores, made in order. -/
def replay (log : List Write) (memory : Memory) : Memory := log.foldl Write.apply memory

/-- The cell that was last stored under a name. -/
def lastValue? (log : List Write) (name : String) : Option Cell :=
  log.reverse.findSome? (Write.value? name)

/-- The cell that was last stored in a slot. -/
def lastSlot? (log : List Write) (slot : Slot) : Option Cell :=
  log.reverse.findSome? (Write.slotValue? slot)

section Replay

variable {log : List Write}

theorem replay_append (log log' : List Write) (memory : Memory) :
    replay (log ++ log') memory = replay log' (replay log memory) :=
  List.foldl_append

/-- Of the stores under a name the last one counts. -/
theorem value?_replay (log : List Write) (memory : Memory) (name : String) :
    (replay log memory).value? name = (lastValue? log name).or (memory.value? name) := by
  induction log generalizing memory with
  | nil => rfl
  | cons w rest ih =>
    have hlast : lastValue? (w :: rest) name = (lastValue? rest name).or (w.value? name) := by
      rw [lastValue?, List.reverse_cons, List.findSome?_append, List.findSome?_singleton,
        lastValue?]
    rw [hlast, Option.or_assoc, ← Write.value?_apply]
    exact ih (w.apply memory)

/-- Of the stores in a slot the last one counts. -/
theorem slot_replay (log : List Write) (memory : Memory) (slot : Slot) :
    (replay log memory).slot slot = (lastSlot? log slot).getD (memory.slot slot) := by
  induction log generalizing memory with
  | nil => rfl
  | cons w rest ih =>
    have hlast : lastSlot? (w :: rest) slot = (lastSlot? rest slot).or (w.slotValue? slot) := by
      rw [lastSlot?, List.reverse_cons, List.findSome?_append, List.findSome?_singleton, lastSlot?]
    rw [hlast, Option.getD_or, ← Write.slot_apply]
    exact ih (w.apply memory)

end Replay

/-! ## Steps -/

/-- What a command stores. -/
def Command.write? (command : Command) (stack : Stack) : Option Write :=
  match command with
  | .storeSlot slot => stack.head?.map (.inSlot slot)
  | _ => none

/-- What a step stores: the cell on top of its stack, if its node is a store. -/
def Taken.write? (library : Library) (taken : Taken) : Option Write :=
  match taken.node with
  | .store name _ => taken.stack.head?.map (.named name)
  | .word name place =>
    match library.resolve name (some place) with
    | .ok ⟨_, .command _ command⟩ => command.write? taken.stack
    | _ => none
  | _ => none

/-- What steps store, in order. -/
def writes (library : Library) (steps : List Taken) : List Write :=
  steps.filterMap (Taken.write? library)

theorem writes_append (library : Library) (steps steps' : List Taken) :
    writes library (steps ++ steps') = writes library steps ++ writes library steps' :=
  List.filterMap_append

theorem writes_cons (library : Library) (taken : Taken) (steps : List Taken) :
    writes library (taken :: steps) = (taken.write? library).toList ++ writes library steps := by
  rw [writes, List.filterMap_cons]
  cases taken.write? library <;> rfl

/-- A run leaves the memory with the stores of its steps made. -/
def Keeps (library : Library) (run : Stack → Machine → Reply Stack)
    (steps : Stack → Machine → List Taken) : Prop :=
  ∀ stack m, (run stack m).2.memory = replay (writes library (steps stack m)) m.memory

section Blocks

variable {library : Library} {run : Stack → Machine → Reply Stack}
  {steps : Stack → Machine → List Taken}

theorem mapItems_memory (h : Keeps library run steps) (blame : Cause → Error)
    (done items : List Cell) (m : Machine) :
    (mapItems run blame done items m).2.memory
      = replay (writes library (mapSteps run steps items m)) m.memory := by
  induction items generalizing done m with
  | nil => rfl
  | cons item rest ih =>
    have hitem := h [item] m
    rw [mapItems, mapSteps, writes_append, replay_append, ← hitem]
    rcases run [item] m with ⟨error | _ | ⟨result, _ | ⟨_, _⟩⟩, k⟩
    · rfl
    · rfl
    · exact ih (result :: done) k
    · rfl

theorem accumulate_memory (h : Keeps library run steps) (emptied : Error)
    (done : List Cell) (accumulator : Cell) (items : List Cell) (m : Machine) :
    (accumulate run emptied done accumulator items m).2.memory
      = replay (writes library (accumulateSteps run steps accumulator items m)) m.memory := by
  induction items generalizing done accumulator m with
  | nil => rfl
  | cons item rest ih =>
    have hitem := h [item, accumulator] m
    rw [accumulate, accumulateSteps, writes_append, replay_append, ← hitem]
    rcases run [item, accumulator] m with ⟨error | _ | ⟨next, left⟩, k⟩
    · rfl
    · rfl
    · exact ih (next :: done) next k

theorem applyBlock_memory {nested : Nested} {body : List Node}
    (h : Keeps library (nested body) steps) (combinator : Combinator) (place : Place)
    (stack : Stack) (m : Machine) :
    (applyBlock nested body combinator place stack m).2.memory
      = replay (writes library (blockSteps (nested body) steps combinator stack m)) m.memory := by
  have hseed : ∀ combinator seed items,
      (accumulateStack nested body combinator place (seed :: items) m).2.memory
        = replay (writes library (accumulateSteps (nested body) steps seed items.reverse m))
          m.memory :=
    fun combinator seed items => accumulate_memory h ..
  match combinator, stack with
  | .map, stack => exact mapItems_memory h ..
  | .fold, [] | .scan, [] | .unknown keyword, _ | .scan, [_] => rfl
  | .fold, seed :: items =>
    rw [applyBlock, blockSteps, ← hseed .fold]
    split <;> simp only [*]
  | .scan, seed :: item :: items => exact hseed .scan seed (item :: items)

end Blocks

variable {setting : Setting} {nested : Nested} {listing : Listing} {taken : Taken} {w : Write}

/-- Of the built-in operations only those of slots change the memory. -/
theorem applyFunction_memory (function : Function) (name : String) (stack : Stack) (m : Machine) :
    (applyFunction function name stack m).2.memory = m.memory := by
  cases function with
  | native operation => rfl
  | print =>
    simp only [applyFunction]
    split <;> rfl
  | random =>
    obtain ⟨fraction, seed, hdraw⟩ := Machine.draw_of_seed m.seed
    simp only [applyFunction, hdraw m rfl]
    split
    · rfl
    · split <;> rfl
    · rfl

theorem applyCommand_memory (config : Config) (command : Command) (name : String) (stack : Stack)
    (m : Machine) :
    (applyCommand config command name stack m).2.memory
      = replay (command.write? stack).toList m.memory := by
  cases command with
  | clear | recallSlot slot => rfl
  | storeSlot slot =>
    cases stack <;> rfl
  | roll | rotate | scale factor =>
    simp only [applyCommand]
    split <;> rfl
  | reduce reduction =>
    simp only [applyCommand]
    split
    · rfl
    · split
      · rfl
      · split
        · split <;> rfl
        · rfl

/-- A node that is no conditional leaves the machine that it leaves when it is executed. -/
theorem stepNode_machine {node : Node} (stack : Stack) (m : Machine)
    (h : ∀ test consequent alternative place, node ≠ .branch test consequent alternative place) :
    (stepNode setting nested node stack m).2 = (executeNode setting nested node stack m).2 := by
  rw [stepNode_of_ne_branch stack m h]
  split <;> simp only [*]

/-- A step leaves the memory with its own store made, and then those of the steps inside of
    it. -/
theorem stepNode_memory (node : Node) (stack : Stack) (m : Machine)
    (hnested : ∀ body, node.Runs setting.library body →
      Keeps setting.library (nested body) (listing body)) :
    (stepNode setting nested node stack m).2.memory
      = replay (writes setting.library
          (⟨node, stack⟩ :: innerSteps setting nested listing node stack m)) m.memory := by
  rw [writes_cons, replay_append]
  cases node with
  | cell c => rfl
  | word name place =>
    rw [stepNode_machine stack m (by simp)]
    simp only [executeNode, Taken.write?, innerSteps]
    -- Only a command stores a cell by itself, and only a definition has steps inside.
    rcases hresolve : setting.library.resolve name (some place) with failure | ⟨called, operation⟩
    · rfl
    · cases operation with
      | function key function => exact applyFunction_memory ..
      | command key command => exact applyCommand_memory ..
      | definition program => exact hnested _ (.word hresolve) stack m
  | block body combinator place =>
    rw [stepNode_machine stack m (by simp)]
    exact applyBlock_memory (hnested body (.block ..)) combinator place stack m
  | branch test consequent alternative place =>
    rw [stepNode_branch]
    split <;> rfl
  | store name place => cases stack <;> rfl
  | fetch name place =>
    rw [stepNode_machine stack m (by simp), executeNode]
    split <;> rfl

theorem traced_memory (step : Nat) (nodes : List Node) (stack : Stack) (m : Machine) :
    (traced setting step nodes stack m).memory = m.memory :=
  (Machine.alike_traced ..).memory

theorem runFrame_memory (hnested : ∀ body, Keeps setting.library (nested body) (listing body))
    (step : Nat) (queue : List Node) (stack : Stack) (m : Machine) :
    (runFrame setting nested step queue stack m).2.memory
      = replay (writes setting.library (frameSteps setting nested listing step queue stack m))
        m.memory := by
  induction queue using frameInduction generalizing step stack m with
  | nil =>
    rw [runFrame_nil, frameSteps_nil]
    exact (Machine.alike_finished ..).memory
  | cons node rest ih =>
    have hstep := stepNode_memory node stack (traced setting step (node :: rest) stack m)
      (fun body (_ : node.Runs setting.library body) => hnested body)
    rw [runFrame_cons, frameSteps_cons, writes_append, replay_append,
      ← traced_memory step (node :: rest) stack m, ← hstep]
    split
    · rename_i hfirst
      rw [hfirst]
      rfl
    · rename_i next front k hfirst
      rw [hfirst]
      exact ih front (stepNode_size hfirst) (step + 1) next k

/-- A run leaves the memory with the stores of its steps made in order, whether it succeeds or
    fails. -/
theorem run_memory (setting : Setting) (depth : Nat) (nodes : List Node) :
    Keeps setting.library (run setting depth nodes) (runSteps setting depth nodes) := by
  induction depth generalizing nodes with
  | zero => exact fun _ _ => rfl
  | succ depth ih => exact fun stack m => runFrame_memory ih 0 nodes stack m

/-- A step that stores a cell takes it from the stack, and succeeds. -/
theorem stepNode_of_write? (hwrite : taken.write? setting.library = some w) (m : Machine) :
    taken.stack.head? = some w.cell
      ∧ stepNode setting nested taken.node taken.stack m
        = (.ok (taken.stack.tail, []), { m with memory := w.apply m.memory }) := by
  obtain ⟨node, stack⟩ := taken
  cases node with
  | word name place =>
    simp only [Taken.write?] at hwrite
    split at hwrite
    · rename_i called key command hresolve
      cases command with
      | storeSlot slot =>
        cases stack with
        | nil => cases hwrite
        | cons cell rest =>
          cases hwrite
          refine ⟨rfl, ?_⟩
          simp only [stepNode, executeNode, hresolve, execute]
          rfl
      | _ => cases hwrite
    · cases hwrite
  | store name place =>
    cases stack with
    | nil => cases hwrite
    | cons cell rest =>
      cases hwrite
      exact ⟨rfl, rfl⟩
  | cell | block | branch | fetch => cases hwrite

/-- A step that fails stores nothing by itself: what was stored is what the steps inside of it
    stored. -/
theorem stepNode_error_memory {depth : Nat} {error : Error} {m m' : Machine}
    (h : stepNode setting (run setting depth) taken.node taken.stack m = (.error error, m')) :
    taken.write? setting.library = none
      ∧ m'.memory = replay (writes setting.library (innerSteps setting (run setting depth)
          (runSteps setting depth) taken.node taken.stack m)) m.memory := by
  have hwrite : taken.write? setting.library = none := by
    cases hw : taken.write? setting.library with
    | none => rfl
    | some w => cases h.symm.trans (stepNode_of_write? hw m).2
  have hmemory := stepNode_memory taken.node taken.stack m
    (fun body _ => run_memory setting depth body)
  rw [h, writes_cons, hwrite] at hmemory
  exact ⟨hwrite, hmemory⟩

/-! ## Histories -/

/-- What an operation stores, and the steps of its definition. -/
def Operation.stores (operation : Operation) (setting : Setting) (stack : Stack) (m : Machine) :
    List Write :=
  match operation.target with
  | .function .. => []
  | .command _ command => (command.write? stack).toList
  | .definition program =>
    writes setting.library (runSteps setting depthLimit program.nodes stack m)

theorem execute_memory (operation : Operation) (setting : Setting) (stack : Stack) (m : Machine) :
    (execute setting (run setting depthLimit) operation stack m).2.memory
      = replay (operation.stores setting stack m) m.memory := by
  obtain ⟨name, target⟩ := operation
  cases target with
  | function key function => exact applyFunction_memory ..
  | command key command => exact applyCommand_memory ..
  | definition program => exact run_memory setting depthLimit program.nodes stack m

/-- A call on a session. -/
inductive Call where
  | run (source : String) (stack : Stack) (name : Option String) (verbosity : Nat)
  | apply (name : String) (stack : Stack)
  | applyOperation (operation : Operation) (stack : Stack)
  | define (name source : String)
  | register (name : String) (function : Session.HostFunction)

namespace Session

/-- The session behind a call, whether it succeeds or fails. -/
def call (session : Session) : Call → Session
  | .run source stack name verbosity => (session.run source stack name verbosity).session
  | .apply name stack => (session.apply name stack).session
  | .applyOperation operation stack => (session.applyOperation operation stack).session
  | .define name source => (session.define name source).session
  | .register name function =>
    match session.register name function with
    | .ok session => session
    | .error _ => session

/-- The session behind a history of calls. -/
def after (session : Session) (calls : List Call) : Session := calls.foldl call session

/-- What the steps of a call store, in order. -/
def stores (session : Session) : Call → List Write
  | .run source stack name verbosity =>
    match parse source name with
    | .error _ => []
    | .ok clauses =>
      match session.bindAll name "" (definitionsOf clauses) with
      | (.error _, _, _) => []
      | (.ok (), session, _) =>
        match assemble (tokens name (termWords clauses)) (.empty name) with
        | .error _ => []
        | .ok program =>
          writes session.library
            (runSteps (session.setting verbosity) depthLimit program.nodes stack session.machine)
  | .apply name stack =>
    match session.operation name with
    | .error _ => []
    | .ok operation => operation.stores (session.setting 0) stack session.machine
  | .applyOperation operation stack => operation.stores (session.setting 0) stack session.machine
  | .define .. | .register .. => []

/-- What the steps of a history store, in order. -/
def log (session : Session) : List Call → List Write
  | [] => []
  | call :: rest => session.stores call ++ (session.call call).log rest

variable {session : Session}

theorem bindAll_memory (name : Option String) (remarks : String)
    (definitions : List (Lexeme × List Lexeme)) :
    (session.bindAll name remarks definitions).2.1.memory = session.memory := by
  induction definitions generalizing session remarks with
  | nil => rfl
  | cons definition rest ih =>
    obtain ⟨head, body⟩ := definition
    rw [bindAll]
    split
    · rfl
    · exact ih _

theorem define_memory (name source : String) :
    (session.define name source).session.memory = session.memory := by
  rw [define]
  dsimp only
  split
  · rfl
  · split
    · rfl
    · split <;> rfl

theorem register_memory {name : String} {function : HostFunction} {session' : Session}
    (h : session.register name function = .ok session') : session'.memory = session.memory := by
  rw [register] at h
  split at h
  · cases h
  · cases h
    rfl

theorem run_stores (source : String) (stack : Stack) (name : Option String) (verbosity : Nat) :
    (session.run source stack name verbosity).session.memory
      = replay (session.stores (.run source stack name verbosity)) session.memory := by
  rw [run, stores]
  cases parse source name with
  | error fault => rfl
  | ok clauses =>
    have hbound := session.bindAll_memory name "" (definitionsOf clauses)
    dsimp only
    match hbind : session.bindAll name "" (definitionsOf clauses) with
    | (.error error, bound, remarks) =>
      rw [hbind] at hbound
      exact hbound
    | (.ok (), bound, remarks) =>
      rw [hbind] at hbound
      dsimp only at hbound ⊢
      cases assemble (tokens name (termWords clauses)) (.empty name) with
      | error error => exact hbound
      | ok program =>
        rw [← hbound]
        exact run_memory (bound.setting verbosity) depthLimit program.nodes stack bound.machine

theorem call_memory (session : Session) (call : Call) :
    (session.call call).memory = replay (session.stores call) session.memory := by
  cases call with
  | run source stack name verbosity => exact run_stores ..
  | apply name stack =>
    rw [Session.call, stores, apply]
    cases session.operation name with
    | error failure => rfl
    | ok operation => exact execute_memory operation (session.setting 0) stack session.machine
  | applyOperation operation stack =>
    exact execute_memory operation (session.setting 0) stack session.machine
  | define name source => exact define_memory ..
  | register name function =>
    rw [Session.call]
    split
    · exact register_memory ‹_›
    · rfl

/-- A history leaves the memory with the stores of its steps made in order. -/
theorem after_memory (session : Session) (calls : List Call) :
    (session.after calls).memory = replay (session.log calls) session.memory := by
  induction calls generalizing session with
  | nil => rfl
  | cons call rest ih =>
    rw [log, replay_append, ← call_memory]
    exact ih (session.call call)

end Session

/-- The words that store a cell in a slot. -/
def slotWords : List (String × Slot) := [("sa", .a), ("sb", .b), ("sc", .c)]

/-- The words of slots are the words that stand for storing in them. -/
theorem Library.IsStandard.resolve_storeSlot_iff {library : Library} (h : library.IsStandard)
    {name : String} {slot : Slot} (place : Option Place) :
    (∃ called key, library.resolve name place = .ok ⟨called, .command key (.storeSlot slot)⟩)
      ↔ (name, slot) ∈ slotWords := by
  constructor
  · rintro ⟨called, key, hresolve⟩
    have hcommands : ∀ entry ∈ Builtin.commands, entry.2 = .storeSlot slot →
        (entry.1, slot) ∈ slotWords := by
      simp [Builtin.commands, slotWords, eq_comm]
    have haliases : ∀ entry ∈ Builtin.aliases, (entry.2, slot) ∉ slotWords := by
      simp [Builtin.aliases, slotWords]
    obtain ⟨function, -, hother⟩ | ⟨command, hentry, hcommand⟩ | ⟨program, -, hother⟩ | hother :=
      h.resolve_cases name place
    · cases hresolve.symm.trans hother
    · cases hresolve.symm.trans hcommand
      have htarget := hcommands _ hentry rfl
      -- No other name stands for one of these words.
      rw [Builtin.target] at htarget
      cases hfind : Table.find? name Builtin.aliases with
      | none => rwa [hfind] at htarget
      | some other =>
        rw [hfind] at htarget
        exact absurd htarget (haliases _ (Table.mem_of_find? hfind))
    · cases hresolve.symm.trans hother
    · cases hresolve.symm.trans hother
  · intro hmem
    simp only [slotWords, List.mem_cons, Prod.mk.injEq, List.not_mem_nil, or_false] at hmem
    obtain ⟨rfl, rfl⟩ | ⟨rfl, rfl⟩ | ⟨rfl, rfl⟩ := hmem
    · exact ⟨"sa", "sa", by rw [resolve, h]; rfl⟩
    · exact ⟨"sb", "sb", by rw [resolve, h]; rfl⟩
    · exact ⟨"sc", "sc", by rw [resolve, h]; rfl⟩

/-- With built-in operations and definitions only, a step stores a cell if it is a store, or the
    word of a slot, and there is a cell on its stack. -/
theorem Taken.write?_eq_some_iff {library : Library} (hstandard : library.IsStandard) :
    taken.write? library = some w ↔
      ∃ place rest, taken.stack = w.cell :: rest ∧
        match w with
        | .named name _ => taken.node = .store name place
        | .inSlot slot _ => ∃ name, (name, slot) ∈ slotWords ∧ taken.node = .word name place := by
  obtain ⟨node, stack⟩ := taken
  constructor
  · intro h
    cases node with
    | word name place =>
      simp only [write?] at h
      split at h
      · rename_i called key command hresolve
        cases command with
        | storeSlot slot =>
          cases stack with
          | nil => cases h
          | cons cell rest =>
            cases h
            have hword := (hstandard.resolve_storeSlot_iff (some place)).mp ⟨_, _, hresolve⟩
            exact ⟨place, rest, rfl, name, hword, rfl⟩
        | _ => cases h
      · cases h
    | store name place =>
      cases stack with
      | nil => cases h
      | cons cell rest =>
        cases h
        exact ⟨place, rest, rfl, rfl⟩
    | cell | block | branch | fetch => cases h
  · rintro ⟨place, rest, rfl, hnode⟩
    cases w with
    | named name cell =>
      cases hnode
      rfl
    | inSlot slot cell =>
      obtain ⟨name, hword, rfl⟩ := hnode
      obtain ⟨called, key, hresolve⟩ := (hstandard.resolve_storeSlot_iff (some place)).mpr hword
      simp only [write?, hresolve]
      rfl

/-! ## The last store counts -/

/-- Since a session was new, or was reset, a variable holds the cell that was last stored under its
    name, and is unbound if there was none; a slot holds the cell that was last stored in it, or
    zero.  The stores are those of all steps that were taken, in the order in which they
    were taken, and count also in a call that failed later.  A step that stores a cell takes it
    from its stack and succeeds, so a step that fails stores nothing by itself. -/
theorem memory_of_history (session : Session) (hsession : session.memory = .fresh)
    (calls : List Call) :
    (∀ name, (session.after calls).memory.value? name = lastValue? (session.log calls) name)
      ∧ (∀ slot, (session.after calls).memory.slot slot
          = (lastSlot? (session.log calls) slot).getD (.number 0.0))
      ∧ ∀ setting depth (taken : Taken) m,
        (∀ w, taken.write? setting.library = some w →
            taken.stack.head? = some w.cell
              ∧ stepNode setting (run setting depth) taken.node taken.stack m
                = (.ok (taken.stack.tail, []), { m with memory := w.apply m.memory }))
          ∧ (setting.library.IsStandard → ∀ w, taken.write? setting.library = some w ↔
            ∃ place rest, taken.stack = w.cell :: rest ∧
              match w with
              | .named name _ => taken.node = .store name place
              | .inSlot slot _ => ∃ name, (name, slot) ∈ slotWords ∧ taken.node = .word name place)
          ∧ ∀ error m',
            stepNode setting (run setting depth) taken.node taken.stack m = (.error error, m') →
              taken.write? setting.library = none
                ∧ m'.memory = replay (writes setting.library (innerSteps setting (run setting depth)
                    (runSteps setting depth) taken.node taken.stack m)) m.memory := by
  have hmemory := session.after_memory calls
  rw [hsession] at hmemory
  refine ⟨fun name => ?_, fun slot => ?_, fun setting depth taken m => ⟨?_, ?_, ?_⟩⟩
  · rw [hmemory, value?_replay]
    exact Option.or_none
  · rw [hmemory, slot_replay]
    cases slot <;> rfl
  · exact fun w hwrite => stepNode_of_write? hwrite m
  · exact fun hstandard w => Taken.write?_eq_some_iff hstandard
  · exact fun error m' h => stepNode_error_memory h

/-- Two calls that fail, the first one behind two stores. -/
def failingCalls : List Call := [.run "7 sa 5 sto a drop" [] none 0, .apply "sb" []]

/-- What was stored before a failure is kept, and a variable with the name of a slot is apart from
    the slot. -/
theorem memory_of_history_kept :
    (Session.fresh .default).memory = .fresh
      ∧ ((Session.fresh .default).run "7 sa 5 sto a drop" [] none 0).result.isOk = false
      ∧ ((Session.fresh .default).after failingCalls).memory.value? "a" = some (.number 5.0)
      ∧ ((Session.fresh .default).after failingCalls).memory.slot .a = .number 7.0
      ∧ ((Session.fresh .default).after failingCalls).memory.slot .b = .number 0.0 := by
  obtain ⟨hvalue, hslot, -⟩ := memory_of_history (.fresh .default) rfl failingCalls
  have hlog : (Session.fresh .default).log failingCalls
      = [.inSlot .a (.number 7.0), .named "a" (.number 5.0)] := by
    decide +kernel
  rw [hvalue, hslot, hslot, hlog]
  exact ⟨rfl, by decide +kernel, rfl, rfl, rfl⟩

end StackCalc
