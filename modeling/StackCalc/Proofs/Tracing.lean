/-
  StackCalc.Proofs.Tracing

  Traces do not interfere with what they show.  A run that is traced has the same result
  as one that is not, and leaves the same memory, random numbers and counts; what the
  untraced run prints is what the traced one prints without the lines of its trace
  (`run_untraced`).  If every step is traced, a run that succeeds prints one line for each
  of its steps and one for each of its frames, also for those of the runs inside of it
  (`run_tally`).  Both are put together in `traced_run`.
-/

import StackCalc.Proofs.Composition
import StackCalc.Proofs.Steps

namespace StackCalc

/-! ## Line feeds -/

/-- The number of line feeds in a text. -/
def lineFeeds (text : String) : Nat := text.toList.count '\n'

theorem lineFeeds_append (s t : String) : lineFeeds (s ++ t) = lineFeeds s + lineFeeds t := by
  rw [lineFeeds, String.toList_append, List.count_append]
  rfl

/-- A text without a line feed in it. -/
def IsUnbroken (text : String) : Prop := '\n' ∉ text.toList

instance (text : String) : Decidable (IsUnbroken text) :=
  inferInstanceAs (Decidable ('\n' ∉ text.toList))

namespace IsUnbroken

variable {s t : String}

theorem append (h : IsUnbroken s) (h' : IsUnbroken t) : IsUnbroken (s ++ t) := by
  rw [IsUnbroken, String.toList_append, List.mem_append]
  exact fun hmem => hmem.elim h h'

theorem ofList {chars : List Char} (h : '\n' ∉ chars) : IsUnbroken (String.ofList chars) := by
  rwa [IsUnbroken, String.toList_ofList]

theorem blanks (n : Nat) : IsUnbroken (String.ofList (List.replicate n ' ')) :=
  ofList fun h => absurd (List.eq_of_mem_replicate h) (by decide)

theorem alignRight (h : IsUnbroken s) (width : Nat) : IsUnbroken (Text.alignRight width s) :=
  (blanks _).append h

theorem alignLeft (h : IsUnbroken s) (width : Nat) : IsUnbroken (Text.alignLeft width s) :=
  h.append (blanks _)

theorem cutEnd (h : IsUnbroken s) (width : Nat) : IsUnbroken (Text.cutEnd width s) := by
  rw [Text.cutEnd]
  split
  · exact h
  · exact (ofList fun hmem => h (List.mem_of_mem_take hmem)).append (by decide)

theorem cutStart (h : IsUnbroken s) (width : Nat) : IsUnbroken (Text.cutStart width s) := by
  rw [Text.cutStart]
  split
  · exact h
  · exact append (by decide) (ofList fun hmem => h (List.mem_of_mem_drop hmem))

theorem paint {parameters : String} (hparameters : IsUnbroken parameters) (h : IsUnbroken s) :
    IsUnbroken (Text.Colour.paint parameters s) := by
  have hcode : IsUnbroken (Text.Colour.code parameters) :=
    ((ofList (by decide)).append hparameters).append (by decide)
  have hreset : IsUnbroken Text.Colour.reset := by decide
  exact (hcode.append h).append hreset

theorem toString (n : Nat) : IsUnbroken (toString n) := by
  rw [IsUnbroken, show (ToString.toString n).toList = Nat.toDigits 10 n from Nat.toList_repr]
  intro hmem
  exact absurd (Nat.isDigit_of_mem_toDigits (by decide) (by decide) hmem) (by decide)

theorem intercalate {texts : List String} (h : ∀ text ∈ texts, IsUnbroken text) :
    IsUnbroken (" ".intercalate texts) := by
  induction texts with
  | nil => decide
  | cons text rest ih =>
    obtain ⟨htext, hrest⟩ := List.forall_mem_cons.mp h
    cases rest with
    | nil => rwa [String.intercalate_singleton]
    | cons text' rest =>
      rw [String.intercalate_cons_cons]
      exact (htext.append (by decide)).append (ih hrest)

/-- What has no line feed is a line if one follows. -/
theorem lineFeeds_line (h : IsUnbroken s) : lineFeeds (s ++ "\n") = 1 := by
  rw [lineFeeds_append, lineFeeds, List.count_eq_zero.mpr h]
  decide

end IsUnbroken

/-! ## Lines of traces -/

/-- Nodes and cells that are shown without a line feed. -/
structure ShownUnbroken (nodes : List Node) (stack : Stack) : Prop where
  nodes : ∀ node ∈ nodes, IsUnbroken node.shown
  cells : ∀ c ∈ stack, IsUnbroken (c.shown none)

/-- The text of a trace for a step: something and a line feed behind it, which is the only one
    unless a node or a cell is shown with one. -/
def IsTraceLine (line : String) : Prop :=
  ∃ step nodes stack front, line = traceLine step nodes stack ∧ line = front ++ "\n" ∧ front ≠ ""
    ∧ (ShownUnbroken nodes stack → lineFeeds line = 1)

/-- What stands in front of the line feed of a trace. -/
def traceFront (step : Nat) (nodes : List Node) (stack : Stack) : String :=
  Text.Colour.paint "90" (Text.alignRight 3 (toString step) ++ " :") ++ "  "
    ++ (Text.alignRight 72 (Text.cutStart 72
        (if stack.isEmpty then "∅" else " ".intercalate (stack.reverse.map (Cell.shown none))))
      ++ " " ++ Text.Colour.paint "36" " <=> " ++ " " ++ Text.alignLeft 72 (Text.cutEnd 72
        (if nodes.isEmpty then "∅" else " ".intercalate (nodes.map Node.shown))))

theorem traceLine_eq (step : Nat) (nodes : List Node) (stack : Stack) :
    traceLine step nodes stack = traceFront step nodes stack ++ "\n" := by
  rw [traceLine, traceColumns, ← String.append_assoc]
  rfl

theorem traceFront_ne (step : Nat) (nodes : List Node) (stack : Stack) :
    traceFront step nodes stack ≠ "" := by
  intro hempty
  have hlength := congrArg String.length hempty
  simp only [traceFront, String.length_append] at hlength
  have hblanks : "  ".length = 2 := rfl
  have hnothing : "".length = 0 := rfl
  omega

theorem ShownUnbroken.front {nodes : List Node} {stack : Stack} (h : ShownUnbroken nodes stack)
    (step : Nat) : IsUnbroken (traceFront step nodes stack) := by
  have hprogram :
      IsUnbroken (if nodes.isEmpty then "∅" else " ".intercalate (nodes.map Node.shown)) := by
    split
    · decide
    · refine .intercalate fun text htext => ?_
      obtain ⟨node, hnode, rfl⟩ := List.mem_map.mp htext
      exact h.nodes node hnode
  have hcells : IsUnbroken
      (if stack.isEmpty then "∅" else " ".intercalate (stack.reverse.map (Cell.shown none))) := by
    split
    · decide
    · refine .intercalate fun text htext => ?_
      obtain ⟨c, hc, rfl⟩ := List.mem_map.mp htext
      exact h.cells c (List.mem_reverse.mp hc)
  have hstep : IsUnbroken (Text.Colour.paint "90"
      (Text.alignRight 3 (toString step) ++ " :")) :=
    .paint (by decide) (((IsUnbroken.toString step).alignRight 3).append (by decide))
  have hmiddle : IsUnbroken (Text.Colour.paint "36" " <=> ") := by decide
  have hleft := (((hcells.cutStart 72).alignRight 72).append (by decide : IsUnbroken " ")).append
    hmiddle
  have hcolumns := (hleft.append (by decide : IsUnbroken " ")).append
    ((hprogram.cutEnd 72).alignLeft 72)
  exact (hstep.append (by decide)).append hcolumns

theorem traceLine_isTraceLine (step : Nat) (nodes : List Node) (stack : Stack) :
    IsTraceLine (traceLine step nodes stack) := by
  refine ⟨step, nodes, stack, _, rfl, traceLine_eq ..,
    traceFront_ne step nodes stack, fun h => ?_⟩
  rw [traceLine_eq]
  exact (h.front step).lineFeeds_line

/-! ## Events -/

/-- The event is a line of a trace. -/
def Event.isTrace : Event → Bool
  | .trace _ => true
  | .print _ => false

/-- The text of events, of which the last one comes first. -/
def printedText (events : List Event) : String := String.join (events.reverse.map Event.line)

/-- The events that are left without the lines of traces. -/
def withoutTraces (events : List Event) : List Event := events.filter (!·.isTrace)

/-- The number of lines of traces. -/
def traceLines (events : List Event) : Nat := events.countP Event.isTrace

theorem printedText_cons (event : Event) (events : List Event) :
    printedText (event :: events) = printedText events ++ event.line := by
  rw [printedText, List.reverse_cons, List.map_append, String.join_append, List.map_singleton,
    String.join_cons, String.join_nil, String.append_empty]
  rfl

/-- As many more lines are printed with a trace as the trace has, if each of them is one line. -/
theorem lineFeeds_printedText {events : List Event}
    (h : ∀ line, .trace line ∈ events → lineFeeds line = 1) :
    lineFeeds (printedText events)
      = lineFeeds (printedText (withoutTraces events)) + traceLines events := by
  induction events with
  | nil => rfl
  | cons event events ih =>
    have hrest := ih fun line hline => h line (List.mem_cons_of_mem _ hline)
    rw [printedText_cons, lineFeeds_append, hrest]
    cases event with
    | trace line =>
      have hkept : withoutTraces (.trace line :: events) = withoutTraces events := rfl
      have hcount : traceLines (.trace line :: events) = traceLines events + 1 :=
        List.countP_cons_of_pos rfl
      rw [hkept, hcount, Event.line, h line (List.mem_cons_self ..), Nat.add_assoc]
    | print line =>
      have hkept : withoutTraces (.print line :: events) = .print line :: withoutTraces events := rfl
      have hcount : traceLines (.print line :: events) = traceLines events :=
        List.countP_cons_of_neg Bool.false_ne_true
      rw [hkept, hcount, printedText_cons, lineFeeds_append, Event.line]
      omega

/-- The text on a machine with more events. -/
theorem Machine.output_of_events {m n : Machine} {added : List Event}
    (h : n.events = added ++ m.events) : n.output = m.output ++ printedText added := by
  rw [Machine.output, Machine.output, printedText, h, List.reverse_append, List.map_append,
    String.join_append]

/-! ## Runs with and without a trace -/

/-- The same was done on two machines since some events before, on the first one without
    the lines of traces. -/
structure Machine.Untraced (before : List Event) (m n : Machine) : Prop where
  memory : n.memory = m.memory
  seed : n.seed = m.seed
  steps : n.steps = m.steps
  frames : n.frames = m.frames
  events : ∃ added, n.events = added ++ before ∧ m.events = withoutTraces added ++ before
    ∧ ∀ line, .trace line ∈ added → IsTraceLine line

namespace Machine.Untraced

variable {before : List Event} {m n : Machine}

theorem refl (m : Machine) : Untraced m.events m m := ⟨rfl, rfl, rfl, rfl, [], rfl, rfl, nofun⟩

/-- A line that the program prints itself stays. -/
theorem print (h : Untraced before m n) (line : String) :
    Untraced before (m.note (.print line)) (n.note (.print line)) := by
  obtain ⟨added, hn, hm, hlines⟩ := h.events
  refine ⟨h.memory, h.seed, h.steps, h.frames, .print line :: added, ?_, ?_, ?_⟩
  · simp only [note, hn, List.cons_append]
  · simp only [note, hm, withoutTraces, List.filter_cons, Event.isTrace, Bool.not_false, if_true,
      List.cons_append]
  · intro other hother
    obtain ⟨⟩ | ⟨_, hother⟩ := hother
    exact hlines other hother

/-- A line of a trace is left out on the first machine. -/
theorem trace (h : Untraced before m n) {line : String} (hline : IsTraceLine line) :
    Untraced before m (n.note (.trace line)) := by
  obtain ⟨added, hn, hm, hlines⟩ := h.events
  refine ⟨h.memory, h.seed, h.steps, h.frames, .trace line :: added, ?_, ?_, ?_⟩
  · simp only [note, hn, List.cons_append]
  · rw [hm, withoutTraces, withoutTraces, List.filter_cons]
    rfl
  · intro other hother
    obtain ⟨⟩ | ⟨_, hother⟩ := hother
    · exact hline
    · exact hlines other hother

/-- No step looks at what was printed. -/
theorem simulation : Simulation (Untraced before) where
  memory h := h.memory.symm
  store h _ := ⟨rfl, h.seed, h.steps, h.frames, h.events⟩
  print h line := h.print line
  draw {m n} h := by
    obtain ⟨fraction, seed, hdraw⟩ := draw_of_seed m.seed
    rw [hdraw m rfl, hdraw n h.seed]
    exact ⟨rfl, h.memory, rfl, h.steps, h.frames, h.events⟩

variable {library : Library} {config : Config} {verbosity step : Nat} {stack : Stack}

theorem traced (h : Untraced before m n) (nodes : List Node) :
    Untraced before (traced ⟨library, config, 0⟩ step nodes stack m)
      (traced ⟨library, config, verbosity⟩ step nodes stack n) := by
  show Untraced before m _
  rw [StackCalc.traced]
  split
  · exact h.trace (traceLine_isTraceLine ..)
  · exact h

theorem finished (h : Untraced before m n) :
    Untraced before (finished ⟨library, config, 0⟩ step stack m)
      (finished ⟨library, config, verbosity⟩ step stack n) := by
  have hfinish : ∀ {n}, Untraced before m n → Untraced before (m.finish step) (n.finish step) :=
    fun h => ⟨h.memory, h.seed, congrArg (· + step) h.steps, congrArg (· + 1) h.frames, h.events⟩
  show Untraced before (m.finish step) _
  rw [StackCalc.finished]
  split
  · exact hfinish (h.trace (traceLine_isTraceLine ..))
  · exact hfinish h

end Machine.Untraced

variable {library : Library} {config : Config} {verbosity : Nat} {before : List Event}

/-- A frame that is traced does the same as one that is not. -/
theorem runFrame_untraced {quiet loud : Nested}
    (hnested : ∀ body, RunsAlike (Machine.Untraced before) (quiet body) (loud body))
    (step : Nat) (queue : List Node) (stack : Stack) {m n : Machine}
    (h : Machine.Untraced before m n) :
    Reply.Related (Machine.Untraced before)
      (runFrame ⟨library, config, 0⟩ quiet step queue stack m)
      (runFrame ⟨library, config, verbosity⟩ loud step queue stack n) := by
  induction queue using frameInduction generalizing step stack m n with
  | nil =>
    rw [runFrame_nil, runFrame_nil]
    exact .of_machines _ h.finished
  | cons node rest ih =>
    have hnode : Reply.Related (Machine.Untraced before)
        (stepNode ⟨library, config, 0⟩ quiet node stack
          (traced ⟨library, config, 0⟩ step (node :: rest) stack m))
        (stepNode ⟨library, config, verbosity⟩ loud node stack
          (traced ⟨library, config, verbosity⟩ step (node :: rest) stack n)) :=
      stepNode_related Machine.Untraced.simulation rfl (fun _ _ _ => rfl)
        (fun body _ => hnested body) stack (h.traced (node :: rest))
    obtain ⟨result, m', n', hquiet, hloud, h'⟩ := hnode.exists
    rw [runFrame_cons, runFrame_cons, hquiet, hloud]
    match result with
    | .error error => exact .of_machines _ h'
    | .ok (next, front) => exact ih front (stepNode_size hquiet) (step + 1) next h'

/-- A run that is traced does the same as one that is not. -/
theorem run_untraced (depth : Nat) (nodes : List Node) :
    RunsAlike (Machine.Untraced before) (run ⟨library, config, 0⟩ depth nodes)
      (run ⟨library, config, verbosity⟩ depth nodes) := by
  induction depth generalizing nodes with
  | zero => exact fun _ _ _ h => .of_machines _ h
  | succ depth ih => exact fun stack _ _ h => runFrame_untraced ih 0 nodes stack h

/-! ## Runs inside of a run -/

/-- A run that a node starts on a stack, and those inside of it. -/
def entered (listing : Listing) (node : Node) : Listing :=
  fun body stack m => ⟨node, stack⟩ :: listing body stack m

/-- The runs that are started inside of a frame, also those inside of other ones: for
    each the node that starts it and the stack that it is started on. -/
def frameCalls (setting : Setting) (nested : Nested) (listing : Listing) (step : Nat)
    (nodes : List Node) (stack : Stack) (m : Machine) : List Taken :=
  match nodes with
  | [] => []
  | node :: rest =>
    let m := traced setting step (node :: rest) stack m
    innerSteps setting nested (entered listing node) node stack m ++
      match _h : stepNode setting nested node stack m with
      | (.ok (next, front), m) =>
        frameCalls setting nested listing (step + 1) (front ++ rest) next m
      | _ => []
termination_by Node.sizeAll nodes
decreasing_by
  have := stepNode_size _h
  rw [Node.sizeAll_append, Node.sizeAll_cons]
  omega

/-- The runs that are started inside of a run. -/
def runCalls (setting : Setting) : Nat → Listing
  | 0 => fun _ _ _ => []
  | depth + 1 => frameCalls setting (run setting depth) (runCalls setting depth) 0

variable {setting : Setting} {nested : Nested} {stack next : Stack} {m n k : Machine}
  {listing calls : Listing}

@[simp] theorem frameCalls_nil (step : Nat) (stack : Stack) (m : Machine) :
    frameCalls setting nested listing step [] stack m = [] := by
  rw [frameCalls]

theorem frameCalls_cons (step : Nat) (node : Node) (rest : List Node) (stack : Stack)
    (m : Machine) :
    frameCalls setting nested listing step (node :: rest) stack m =
      innerSteps setting nested (entered listing node) node stack
          (traced setting step (node :: rest) stack m) ++
        match stepNode setting nested node stack (traced setting step (node :: rest) stack m) with
        | (.ok (next, front), m) =>
          frameCalls setting nested listing (step + 1) (front ++ rest) next m
        | _ => [] := by
  rw [frameCalls]
  split
  · rename_i hstep
    rw [hstep]
  · rename_i hstep
    split
    · exact absurd ‹_› (hstep _ _ _)
    · rfl

/-! ## Counting -/

/-- The second machine has counted a number of steps and of finished frames more, and
    printed a number of lines of traces more. -/
structure Machine.Tally (steps frames lines : Nat) (m n : Machine) : Prop where
  steps : n.steps = m.steps + steps
  frames : n.frames = m.frames + frames
  lines : traceLines n.events = traceLines m.events + lines

namespace Machine.Tally

variable {steps frames lines steps' frames' lines' : Nat}

theorem refl (m : Machine) : Tally 0 0 0 m m := ⟨rfl, rfl, rfl⟩

theorem trans (h : Tally steps frames lines m n) (h' : Tally steps' frames' lines' n k) :
    Tally (steps + steps') (frames + frames') (lines + lines') m k where
  steps := by rw [h'.steps, h.steps, Nat.add_assoc]
  frames := by rw [h'.frames, h.frames, Nat.add_assoc]
  lines := by rw [h'.lines, h.lines, Nat.add_assoc]

/-- A machine with one line of a trace more. -/
theorem of_trace (m : Machine) (line : String) : Tally 0 0 1 m (m.note (.trace line)) :=
  ⟨rfl, rfl, List.countP_cons_of_pos rfl⟩

/-- A line that the program prints itself is no line of a trace. -/
theorem of_print (m : Machine) (line : String) : Tally 0 0 0 m (m.note (.print line)) :=
  ⟨rfl, rfl, List.countP_cons_of_neg Bool.false_ne_true⟩

/-- The trace of all steps has a line before each. -/
theorem of_traced (hall : setting.verbosity = 2) (step : Nat) (nodes : List Node)
    (stack : Stack) (m : Machine) : Tally 0 0 1 m (traced setting step nodes stack m) := by
  have htraced : traced setting step nodes stack m
      = m.note (.trace (traceLine step nodes stack)) := by
    simp only [traced, hall, decide_true, Bool.true_or, if_true]
  rw [htraced]
  exact of_trace ..

/-- A frame that finishes counts its steps and itself, and has a line behind its last
    step. -/
theorem of_finished (hall : setting.verbosity = 2) (step : Nat) (stack : Stack) (m : Machine) :
    Tally step 1 1 m (finished setting step stack m) := by
  have hfinished : finished setting step stack m
      = (m.note (.trace (traceLine step [] stack))).finish step := by
    simp only [finished, hall, gt_iff_lt, Nat.two_pos, if_true]
  rw [hfinished]
  exact ⟨rfl, rfl, (of_trace m _).lines⟩

end Machine.Tally

/-- Listed steps and frames were counted, with a line of a trace for each. -/
def Machine.Counts (steps frames : List Taken) (m n : Machine) : Prop :=
  Tally steps.length frames.length (steps.length + frames.length) m n

/-- Behind a run that succeeds, its steps and frames are counted. -/
def Tallies (run : Stack → Machine → Reply Stack) (steps frames : Stack → Machine → List Taken) :
    Prop :=
  ∀ stack m last k, run stack m = (.ok last, k) →
    Machine.Counts (steps stack m) (frames stack m) m k

theorem Machine.Counts.nil (m : Machine) : Counts [] [] m m := Tally.refl m

theorem Machine.Counts.append {steps steps' frames frames' : List Taken}
    (h : Counts steps frames m n) (h' : Counts steps' frames' n k) :
    Counts (steps ++ steps') (frames ++ frames') m k := by
  have hlines : (steps ++ steps').length + (frames ++ frames').length
      = steps.length + frames.length + (steps'.length + frames'.length) := by
    rw [List.length_append, List.length_append]
    omega
  rw [Counts, hlines, List.length_append, List.length_append]
  exact h.trans h'

section Blocks

variable {run : Stack → Machine → Reply Stack} {steps frames : Stack → Machine → List Taken}

theorem mapItems_tally (h : Tallies run steps frames) {blame : Cause → Error}
    {done items results : List Cell} (hmap : mapItems run blame done items m = (.ok results, k)) :
    Machine.Counts (mapSteps run steps items m) (mapSteps run frames items m) m k := by
  induction items generalizing done m with
  | nil =>
    cases hmap
    exact .nil _
  | cons item rest ih =>
    rw [mapItems] at hmap
    rw [mapSteps, mapSteps]
    rcases hitem : run [item] m with ⟨error | _ | ⟨result, _ | ⟨_, _⟩⟩, n⟩ <;> rw [hitem] at hmap
    · cases hmap
    · cases hmap
    · exact (h _ _ _ _ hitem).append (ih hmap)
    · cases hmap

theorem accumulate_tally (h : Tallies run steps frames) {emptied : Error}
    {done items results : List Cell} {accumulator : Cell}
    (haccumulate : accumulate run emptied done accumulator items m = (.ok results, k)) :
    Machine.Counts (accumulateSteps run steps accumulator items m)
      (accumulateSteps run frames accumulator items m) m k := by
  induction items generalizing done accumulator m with
  | nil =>
    cases haccumulate
    exact .nil _
  | cons item rest ih =>
    rw [accumulate] at haccumulate
    rw [accumulateSteps, accumulateSteps]
    rcases hitem : run [item, accumulator] m with ⟨error | _ | ⟨next, left⟩, n⟩ <;>
      rw [hitem] at haccumulate
    · cases haccumulate
    · cases haccumulate
    · exact (h _ _ _ _ hitem).append (ih haccumulate)

theorem applyBlock_tally {body : List Node} (h : Tallies (nested body) steps frames)
    {combinator : Combinator} {place : Place}
    (hblock : applyBlock nested body combinator place stack m = (.ok next, k)) :
    Machine.Counts (blockSteps (nested body) steps combinator stack m)
      (blockSteps (nested body) frames combinator stack m) m k := by
  match combinator, stack with
  | .map, stack => exact mapItems_tally h hblock
  | .fold, [] | .scan, [] | .unknown keyword, _ => cases hblock
  | .fold, seed :: items =>
    rw [applyBlock] at hblock
    split at hblock
    · rename_i results k' hall
      cases hblock
      exact accumulate_tally h hall
    · cases hblock
  | .scan, [seed] =>
    cases hblock
    exact .nil m
  | .scan, seed :: item :: items => exact accumulate_tally h hblock

end Blocks

/-- Built-in operations count nothing and trace nothing. -/
theorem applyFunction_tally (function : Function) (name : String) (stack : Stack) (m : Machine) :
    Machine.Tally 0 0 0 m (applyFunction function name stack m).2 := by
  cases function with
  | native operation => exact .refl m
  | print =>
    simp only [applyFunction]
    split
    · exact .refl m
    · exact .of_print m _
    · exact .refl m
  | random =>
    obtain ⟨fraction, seed, hdraw⟩ := Machine.draw_of_seed m.seed
    simp only [applyFunction, hdraw m rfl]
    split
    · exact .refl m
    · split <;> exact ⟨rfl, rfl, rfl⟩
    · exact .refl m

theorem applyCommand_tally (config : Config) (command : Command) (name : String) (stack : Stack)
    (m : Machine) : Machine.Tally 0 0 0 m (applyCommand config command name stack m).2 := by
  cases command with
  | clear | recallSlot slot => exact .refl m
  | storeSlot slot => cases stack <;> exact ⟨rfl, rfl, rfl⟩
  | roll | rotate | scale factor =>
    simp only [applyCommand]
    split <;> exact .refl m
  | reduce reduction =>
    simp only [applyCommand]
    split
    · exact .refl m
    · split
      · exact .refl m
      · split
        · split <;> exact .refl m
        · exact .refl m

/-- The lists of steps and of runs inside of a step that succeeds count it right. -/
theorem stepNode_tally (node : Node) {front : List Node}
    (hnested : ∀ body, Tallies (nested body) (listing body) (entered calls node body))
    (hstep : stepNode setting nested node stack m = (.ok (next, front), k)) :
    Machine.Counts (innerSteps setting nested listing node stack m)
      (innerSteps setting nested (entered calls node) node stack m) m k := by
  obtain ⟨test, consequent, alternative, place, rfl⟩ | hn := node.branch_or_ne
  · rw [stepNode_branch] at hstep
    split at hstep <;> cases hstep
    exact .nil m
  rw [stepNode_of_ne_branch stack m hn] at hstep
  split at hstep
  · cases hstep
  rename_i next k hexecute
  cases hstep
  cases node with
  | cell c =>
    cases hexecute
    exact .nil m
  | word name place =>
    simp only [executeNode] at hexecute
    simp only [innerSteps]
    rcases hresolve : setting.library.resolve name (some place) with failure | ⟨called, operation⟩
      <;> rw [hresolve] at hexecute
    · cases hexecute
    · cases operation with
      | function key function =>
        have hk : (applyFunction function called stack m).2 = k := congrArg Prod.snd hexecute
        rw [← hk]
        exact applyFunction_tally ..
      | command key command =>
        have hk : (applyCommand setting.config command called stack m).2 = k :=
          congrArg Prod.snd hexecute
        rw [← hk]
        exact applyCommand_tally ..
      | definition program => exact hnested program.nodes _ _ _ _ hexecute
  | block body combinator place => exact applyBlock_tally (hnested body) hexecute
  | branch test consequent alternative place =>
    exact absurd rfl (hn test consequent alternative place)
  | store name place =>
    cases stack <;> cases hexecute
    exact ⟨rfl, rfl, rfl⟩
  | fetch name place =>
    simp only [executeNode] at hexecute
    split at hexecute <;> cases hexecute
    exact .nil m

/-- A traced frame that succeeds, of whose steps some were done before, has a line for
    each of its steps, for each step and frame inside of it, and for itself. -/
theorem runFrame_tally (hall : setting.verbosity = 2)
    (hnested : ∀ body node, Tallies (nested body) (listing body) (entered calls node body))
    (step : Nat) (queue : List Node) {last : Stack}
    (h : runFrame setting nested step queue stack m = (.ok last, k)) :
    Machine.Tally (step + (frameSteps setting nested listing step queue stack m).length)
      ((frameCalls setting nested calls step queue stack m).length + 1)
      ((frameSteps setting nested listing step queue stack m).length
        + ((frameCalls setting nested calls step queue stack m).length + 1)) m k := by
  induction queue using frameInduction generalizing step stack m with
  | nil =>
    rw [runFrame_nil] at h
    rw [frameSteps_nil, frameCalls_nil]
    have hk : finished setting step stack m = k := congrArg Prod.snd h
    rw [← hk]
    exact .of_finished hall step stack m
  | cons node rest ih =>
    rw [runFrame_cons] at h
    rw [frameSteps_cons, frameCalls_cons]
    have htraced := Machine.Tally.of_traced hall step (node :: rest) stack m
    rcases hstep : stepNode setting nested node stack
      (traced setting step (node :: rest) stack m) with ⟨error | ⟨next, front⟩, n⟩
      <;> rw [hstep] at h
    · cases h
    -- The line before the step, the lines of the runs inside of it, and those that follow.
    have hinner := stepNode_tally node (fun body => hnested body node) hstep
    have hrest := ih front (stepNode_size hstep) (step + 1) h
    have hsum := (htraced.trans hinner).trans hrest
    simp only [List.cons_append, List.length_cons, List.length_append]
    refine ⟨?_, ?_, ?_⟩
    · rw [hsum.steps]
      omega
    · rw [hsum.frames]
      omega
    · rw [hsum.lines]
      omega

/-- A traced run that succeeds counts its steps, those of the runs inside of it, and all
    their frames, and has a line for each. -/
theorem run_tally (hall : setting.verbosity = 2) (depth : Nat) (nodes : List Node) (node : Node) :
    Tallies (run setting depth nodes) (runSteps setting depth nodes)
      (entered (runCalls setting depth) node nodes) := by
  induction depth generalizing nodes node with
  | zero =>
    intro stack m last k h
    cases h
  | succ depth ih =>
    intro stack m last k h
    have hframe := runFrame_tally hall ih 0 nodes h
    rw [Nat.zero_add] at hframe
    exact hframe

/-- A run has the same result however much of it is traced: it ends with the same stack or
    with the same error, and leaves the same memory, random numbers and counts.  What is
    printed without a trace is what is printed with one, without the lines of the trace.
    Each of these is a line with a line end; only a text on the stack or in the program that
    has line feeds itself can break it.  If every step of a run is traced that succeeds, the
    trace has a line for every step that is counted and one for every frame: that of the run
    itself, and those of the runs inside of it; so many more lines are printed. -/
theorem traced_run (library : Library) (config : Config) (verbosity depth : Nat)
    (nodes : List Node) (stack : Stack) (m : Machine) :
    ∃ result quiet loud added,
      run ⟨library, config, 0⟩ depth nodes stack m = (result, quiet)
      ∧ run ⟨library, config, verbosity⟩ depth nodes stack m = (result, loud)
      ∧ loud.memory = quiet.memory ∧ loud.seed = quiet.seed
      ∧ loud.steps = quiet.steps ∧ loud.frames = quiet.frames
      ∧ loud.events = added ++ m.events ∧ quiet.events = withoutTraces added ++ m.events
      ∧ loud.output = m.output ++ printedText added
      ∧ quiet.output = m.output ++ printedText (withoutTraces added)
      ∧ (∀ line, .trace line ∈ added → IsTraceLine line)
      ∧ ∀ last, result = .ok last → verbosity = 2 →
        ∃ steps frames, loud.steps = m.steps + steps ∧ loud.frames = m.frames + frames
          ∧ steps = (runSteps ⟨library, config, verbosity⟩ depth nodes stack m).length
          ∧ frames = (runCalls ⟨library, config, verbosity⟩ depth nodes stack m).length + 1
          ∧ traceLines added = steps + frames
          ∧ ((∀ line, .trace line ∈ added → lineFeeds line = 1) →
            lineFeeds (printedText added)
              = lineFeeds (printedText (withoutTraces added)) + (steps + frames)) := by
  have huntraced : RunsAlike (Machine.Untraced m.events) (run ⟨library, config, 0⟩ depth nodes)
      (run ⟨library, config, verbosity⟩ depth nodes) := run_untraced depth nodes
  obtain ⟨result, quiet, loud, hquiet, hloud, h⟩ := (huntraced stack m m (.refl m)).exists
  obtain ⟨added, hn, hm, hlines⟩ := h.events
  refine ⟨result, quiet, loud, added, hquiet, hloud, h.memory, h.seed, h.steps, h.frames, hn, hm,
    Machine.output_of_events hn, Machine.output_of_events hm, hlines, ?_⟩
  rintro last rfl hall
  -- The node that a run is started by does not matter for how many runs there are.
  have htally : Machine.Counts (runSteps ⟨library, config, verbosity⟩ depth nodes stack m)
      (entered (runCalls ⟨library, config, verbosity⟩ depth) (.cell (.number 0)) nodes stack m)
      m loud := run_tally hall depth nodes _ _ _ _ _ hloud
  -- The lines that the machine had before are on both sides of the count.
  have hcount := htally.lines
  rw [hn, traceLines, traceLines, List.countP_append, Nat.add_comm] at hcount
  have hcount := Nat.add_left_cancel hcount
  exact ⟨_, _, htally.steps, htally.frames, rfl, rfl, hcount,
    fun hsingle => (lineFeeds_printedText hsingle).trans (congrArg _ hcount)⟩

/-- A definition that prints a copy of the cell on top. -/
def shout : Program := ⟨[.word "dup" .unknown, .word "pln" .unknown], .empty none⟩

/-- A block that calls a definition for each of two cells takes seven steps in five frames,
    so a trace of all steps has twelve lines. -/
theorem traced_run_of_block :
    ∃ quiet loud,
      run ⟨Library.fresh.define "shout" shout, .default, 0⟩ 3
          [.block [.word "shout" .unknown] .map .unknown] [.text "b", .text "a"]
          (.start .fresh 0) = (.ok [.text "b", .text "a"], quiet)
        ∧ run ⟨Library.fresh.define "shout" shout, .default, 2⟩ 3
          [.block [.word "shout" .unknown] .map .unknown] [.text "b", .text "a"]
          (.start .fresh 0) = (.ok [.text "b", .text "a"], loud)
        ∧ quiet.events = withoutTraces loud.events
        ∧ loud.steps = 7 ∧ loud.frames = 5 ∧ traceLines loud.events = 12
        ∧ ∀ line, .trace line ∈ loud.events → IsTraceLine line := by
  obtain ⟨result, quiet, loud, added, hquiet, hloud, -, -, -, -, hadded, hkept, -, -, hlines,
      hcounts⟩ :=
    traced_run (Library.fresh.define "shout" shout) .default 2 3
      [.block [.word "shout" .unknown] .map .unknown] [.text "b", .text "a"] (.start .fresh 0)
  have hrelated := run_related ⟨Library.fresh.define "shout" shout, .default, 2⟩ 3
    [.block [.word "shout" .unknown] .map .unknown] [.text "b", .text "a"] (.start .fresh 0)
    (.start .fresh 0) (.refl _)
  rw [hloud] at hrelated
  obtain rfl : result = .ok [.text "b", .text "a"] :=
    hrelated.1.trans (by decide +kernel)
  have hsteps : loud.steps = 7 := by
    have hevaluated := hrelated.2.steps
    rw [Nat.add_zero] at hevaluated
    rw [← hevaluated]
    decide +kernel
  have hframes : loud.frames = 5 := by
    have hevaluated := hrelated.2.frames
    rw [Nat.add_zero] at hevaluated
    rw [← hevaluated]
    decide +kernel
  obtain ⟨steps, frames, hsteps', hframes', -, -, htrace, -⟩ := hcounts _ rfl rfl
  have hstart : (Machine.start .fresh 0).steps = 0 ∧ (Machine.start .fresh 0).frames = 0
      ∧ (Machine.start .fresh 0).events = [] := ⟨rfl, rfl, rfl⟩
  rw [hstart.2.2, List.append_nil] at hadded hkept
  rw [← hadded] at hkept hlines htrace
  exact ⟨quiet, loud, hquiet, hloud, hkept, hsteps, hframes, by omega, hlines⟩

end StackCalc
