/-
  StackCalc.Proofs.Origins

  The texts that failures are blamed on.  A failed run is blamed on the place of a node that
  its program can get to (`run_failure_text`), and places are made from the words of texts
  alone.  So in a session whose definitions come from texts with known names, a run of another
  such text is blamed on one of them (`Session.run_standsIn`).
-/

import StackCalc.Proofs.Binding
import StackCalc.Proofs.Blame
import StackCalc.Proofs.Places
import StackCalc.Proofs.Reachability

namespace StackCalc

/-! ## The text of a failure -/

namespace Failure

/-- The name of the text that a failure is blamed on.  A fault of a text knows it by itself, all
    others have it from the step that they are blamed on. -/
def text (failure : Failure) : Option String :=
  match failure.cause with
  | .source fault => fault.name
  | _ => failure.place.bind (·.origin.name?)

/-- The line that a failure is blamed on. -/
def line (failure : Failure) : Option Int :=
  match failure.cause with
  | .source fault => fault.line
  | _ => failure.place.bind (·.first)

/-- If a failure is blamed on a text with a name, it is one of these. -/
def StandsIn (names : List String) (failure : Failure) : Prop :=
  ∀ name ∈ failure.text, name ∈ names

end Failure

/-! ## Steps that a frame gets to -/

variable {library : Library} {setting : Setting} {P : Node → Prop}

/-- What holds throughout the queue of a frame holds throughout those of all frames that are at
    work in its run. -/
theorem Frame.Reaches.throughout {f inner : Frame} (h : f.Reaches setting inner)
    (hqueue : Throughout setting.library P f.queue) :
    Throughout setting.library P inner.queue := by
  induction h with
  | refl f => exact hqueue
  | advance advances _ ih =>
    cases advances with
    | step queue succeeded =>
      rw [queue] at hqueue
      exact ih (hqueue.behind succeeded)
  | enter enters _ ih =>
    cases enters with
    | start depth queue starts =>
      rw [queue] at hqueue
      exact ih (hqueue.inside starts.runs)

/-- A failed run is blamed on the text of a node that its program can get to. -/
theorem run_failure_text {depth : Nat} {nodes : List Node} {stack : Stack} {m m' : Machine}
    {failure : Failure} (hnodes : Throughout setting.library P nodes)
    (h : run setting depth nodes stack m = (.error (.failure failure), m')) :
    ∃ node, P node ∧ failure.text = node.place?.bind (·.origin.name?) := by
  cases depth with
  | zero => cases h
  | succ below =>
    have hframe : (Frame.mk below 0 nodes stack m).run setting
        = (.error (.failure failure), m') := h
    obtain ⟨inner, node, own, hreaches, hstumbles⟩ := Frame.exists_stumbles _ hframe
    obtain ⟨rest, hqueue⟩ := hstumbles.queue
    have hinner : Throughout setting.library P (node :: rest) := by
      rw [← hqueue]
      exact hreaches.throughout hnodes
    obtain ⟨-, -, horigin⟩ := hstumbles.own
    -- The frames around the step have left its cause and its place as they were.
    cases (hreaches.run_eq hstumbles).symm.trans hframe
    refine ⟨node, hinner.head, ?_⟩
    rw [Failure.text]
    split
    · rename_i fault hcause
      exact horigin fault hcause
    · rfl

/-! ## Places in texts with known names -/

/-- A place that is not in one of the texts is forgotten. -/
def Place.confine (names : List String) (place : Place) : Place :=
  if place.origin.name?.all (· ∈ names) then place else .unknown

theorem Place.name_mem_of_confine {names : List String} {place : Place}
    (h : place.confine names = place) : ∀ name ∈ place.origin.name?, name ∈ names := by
  intro name hname
  rw [confine] at h
  split at h
  · rename_i hall
    rw [Option.mem_def.mp hname] at hall
    simpa using hall
  · rw [← h] at hname
    cases hname

namespace Node

variable {f : Place → Place}

mutual

theorem relocate_id : ∀ node : Node, node.relocate id = node
  | cell c => by rw [relocate]
  | word name place => by rw [relocate]; rfl
  | block body combinator place => by rw [relocate, relocateAll_id body]; rfl
  | branch test consequent alternative place => by
    rw [relocate, relocateAll_id consequent, relocateAll_id alternative]; rfl
  | store name place => by rw [relocate]; rfl
  | fetch name place => by rw [relocate]; rfl

theorem relocateAll_id : ∀ nodes : List Node, relocateAll id nodes = nodes
  | [] => by rw [relocateAll]
  | node :: rest => by rw [relocateAll, relocate_id node, relocateAll_id rest]

end

/-- Nodes that are all left where they are. -/
theorem relocateAll_eq_self_iff {nodes : List Node} :
    relocateAll f nodes = nodes ↔ ∀ node ∈ nodes, node.relocate f = node := by
  have hinj := List.map_inj_left (l := nodes) (f := relocate f) (g := id)
  rwa [List.map_id, ← relocateAll_eq_map] at hinj

end Node

/-- A program is left where it is if all its tokens are. -/
theorem assemble_fixed {f : Place → Place} {xs : List Token} {extent : Extent} {program : Program}
    (hxs : ∀ x ∈ xs, f x.settled = x.settled) (h : assemble xs extent = .ok program) :
    Node.relocateAll f program.nodes = program.nodes := by
  -- To move the tokens is to leave them, and the nodes move with their tokens.
  have htokens : xs.map (Token.relocate f) = xs.map (Token.relocate id) := by
    refine List.map_congr_left fun x hx => ?_
    simp only [Token.relocate, hxs x hx, id]
  have hmoved : assemble (xs.map (Token.relocate f)) extent
      = .ok ⟨Node.relocateAll f program.nodes, extent⟩ := assemble_relocate h
  rw [htokens, assemble_relocate h, Node.relocateAll_id] at hmoved
  exact (congrArg Program.nodes (Except.ok.inj hmoved)).symm

/-- A program that stands in texts with these names only. -/
def Program.StandsIn (names : List String) (program : Program) : Prop :=
  Node.relocateAll (Place.confine names) program.nodes = program.nodes

/-- The program of words of a text stands in it. -/
theorem Program.standsIn_of_assemble {names : List String} {name : Option String}
    {words : List Lexeme} {extent : Extent} {program : Program} (hname : ∀ n ∈ name, n ∈ names)
    (h : assemble (Session.tokens name words) extent = .ok program) : program.StandsIn names := by
  refine assemble_fixed ?_ h
  intro x hx
  obtain ⟨word, -, rfl⟩ := List.mem_map.mp hx
  rw [Place.confine, if_pos]
  cases name with
  | none => rfl
  | some n =>
    have hn : n ∈ names := hname n rfl
    simpa [Token.settled, Lexeme.token, Origin.ofName?, Origin.name?] using hn

/-- A library with definitions that stand in texts with these names only. -/
def Library.StandsIn (names : List String) (library : Library) : Prop :=
  ∀ word program, library.definitions.get? word = some program → program.StandsIn names

theorem Library.fresh_standsIn (names : List String) : fresh.StandsIn names := nofun

/-- A program can only get to nodes that stand in texts with these names, if its library
    does. -/
theorem Program.StandsIn.throughout {names : List String} {program : Program}
    (h : program.StandsIn names) (hlibrary : library.StandsIn names) :
    Throughout library (fun node => node.relocate (Place.confine names) = node) program.nodes := by
  refine .of_closed (Node.relocateAll_eq_self_iff.mp h) ?_ ?_
  · intro test consequent alternative place hbranch x hx
    rw [Node.relocate] at hbranch
    obtain ⟨-, hconsequent, halternative, -⟩ := Node.branch.inj hbranch
    obtain hx | hx := List.mem_append.mp hx
    · exact Node.relocateAll_eq_self_iff.mp hconsequent x hx
    · exact Node.relocateAll_eq_self_iff.mp halternative x hx
  · intro outer body houter hruns x hx
    cases hruns with
    | block body combinator place =>
      rw [Node.relocate] at houter
      obtain ⟨hbody, -⟩ := Node.block.inj houter
      exact Node.relocateAll_eq_self_iff.mp hbody x hx
    | word resolved =>
      have hdefinition := hlibrary _ _ (Library.definition_of_resolve resolved)
      exact Node.relocateAll_eq_self_iff.mp hdefinition x hx

/-- The name that a node has from its place, if it is left where it is. -/
theorem Node.name_mem_of_confine {names : List String} {node : Node}
    (h : node.relocate (Place.confine names) = node) :
    ∀ name ∈ node.place?.bind (·.origin.name?), name ∈ names := by
  cases node <;> simp only [relocate, word.injEq, block.injEq, branch.injEq,
    store.injEq, fetch.injEq, true_and] at h
  case cell c => exact nofun
  case word name place => exact Place.name_mem_of_confine h
  case block body combinator place => exact Place.name_mem_of_confine h.2
  case branch test consequent alternative place => exact Place.name_mem_of_confine h.2.2
  case store name place => exact Place.name_mem_of_confine h
  case fetch name place => exact Place.name_mem_of_confine h

/-! ## Sessions -/

/-- A library stays in texts with these names under the definitions of such a text. -/
theorem Library.StandsIn.overwritten {names : List String} {origin : Option String}
    {definitions : List (Lexeme × List Lexeme)} {table : Table Program}
    (h : library.StandsIn names) (horigin : ∀ name ∈ origin, name ∈ names)
    (hoverwrites : Overwrites origin definitions library.definitions table) :
    StandsIn names { library with definitions := table } := by
  intro word program hprogram
  have hword := hoverwrites word
  split at hword
  · obtain ⟨last, hassemble, hbound⟩ := hword
    cases hbound.symm.trans hprogram
    exact Program.standsIn_of_assemble horigin hassemble
  · exact h word program (hword ▸ hprogram)

/-- A text that does not parse is blamed itself. -/
theorem name_of_parse_error {source : String} {name : Option String} {fault : SourceError}
    (h : parse source name = .error fault) : fault.name = name := by
  simp only [parse] at h
  split at h
  · cases h
    rfl
  · split at h
    · cases h
      rfl
    · split at h
      · cases h
      · cases h
        rfl

/-- A run of a text with one of these names, in a session with definitions from such texts, is
    blamed on such a text if it fails, and it leaves such a session. -/
theorem Session.run_standsIn {names : List String} (session : Session)
    (h : session.library.StandsIn names) {name : Option String} (hname : ∀ n ∈ name, n ∈ names)
    (source : String) (stack : Stack) (verbosity : Nat) :
    (session.run source stack name verbosity).session.library.StandsIn names
      ∧ ∀ failure, (session.run source stack name verbosity).result = .error (.failure failure) →
        failure.StandsIn names := by
  cases hparse : parse source name with
  | error fault =>
    rw [session.run_of_parse_error hparse]
    refine ⟨h, fun failure hfailure => ?_⟩
    cases hfailure
    have htext : (Failure.ofSource fault).text = name := name_of_parse_error hparse
    rw [Failure.StandsIn, htext]
    exact hname
  | ok clauses =>
    obtain ⟨-, table, program, remarks, hoverwrites, hprogram, hrun⟩ :=
      session.run_of_parse hparse stack verbosity
    have hlibrary : Library.StandsIn names { session.library with definitions := table } :=
      h.overwritten hname hoverwrites
    have hthroughout : Throughout (session.withDefinitions table).library
        (fun node => node.relocate (Place.confine names) = node) program.nodes :=
      (Program.standsIn_of_assemble hname hprogram).throughout hlibrary
    rw [hrun]
    refine ⟨hlibrary, fun failure hfailure => ?_⟩
    have hreply : ∀ reply : Reply Stack,
        ((session.withDefinitions table).settle remarks reply).result = reply.1 := fun _ => rfl
    rw [hreply] at hfailure
    obtain ⟨node, hnode, htext⟩ := run_failure_text hthroughout (Prod.ext hfailure rfl)
    rw [Failure.StandsIn, htext]
    exact Node.name_mem_of_confine hnode

end StackCalc
