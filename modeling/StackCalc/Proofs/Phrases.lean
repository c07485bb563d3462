/-
  StackCalc.Proofs.Phrases

  Texts without definitions.  A text that consists of items runs as the nodes that its words
  make (`run_of_items`), and words alone make a node each, so a text of operations, one behind
  the other, is executed word by word (`run_of_words`).  What a word stands for is up to the
  library: without registrations the words of built-in operations keep their meaning
  (`Library.IsStandard.keeps`).
-/

import Mathlib.Data.List.Forall2
import StackCalc.Proofs.InlineDefinitions
import StackCalc.Proofs.NativeCalls
import StackCalc.Proofs.PlacedNodes
import StackCalc.Proofs.Reachability
import StackCalc.Proofs.Relevance

namespace StackCalc

open Grammar Clause

variable {setting : Setting} {nested : Nested} {source word : String} {name : Option String}
  {nodes : List Node} {words : List String}

/-! ## The words of built-in operations -/

/-- A word stands for what it stands for without registrations and definitions. -/
def Library.Keeps (library : Library) (word : String) : Prop :=
  ∀ place, library.resolve word place = fresh.resolve word place

/-- Definitions alone do not change what the words of built-in operations stand for. -/
theorem Library.IsStandard.keeps {library : Library} (h : library.IsStandard)
    (hword : fresh.isBuiltin word = true) : library.Keeps word := by
  intro place
  have hsame : Library.fresh.functions = library.functions := h.symm
  exact (resolve_of_isBuiltin hsame hword place).symm

/-- A word that keeps its meaning is executed as the command that it stands for. -/
theorem executeNode_command {key : String} {command : Command} (hkeeps : setting.library.Keeps word)
    (hcommand : ∀ place, Library.fresh.resolve word place = .ok ⟨word, .command key command⟩)
    (place : Place) (stack : Stack) (m : Machine) :
    executeNode setting nested (.word word place) stack m
      = applyCommand setting.config command word stack m := by
  rw [executeNode, hkeeps, hcommand]
  rfl

/-- A word that keeps its meaning gives what the function that it stands for produces. -/
theorem executeNode_produces {cells results : List Cell} (hkeeps : setting.library.Keeps word)
    (hproduces : Builtin.Produces (Builtin.target word) cells results) (place : Place)
    (below : Stack) (m : Machine) :
    executeNode setting nested (.word word place) (cells ++ below) m
      = (.ok (results ++ below), m) := by
  obtain ⟨function, hfind, happly⟩ := hproduces
  have hget : Library.fresh.functions.get? (Builtin.target word) = some function := hfind
  have hresolve : Library.fresh.resolve word (some place)
      = .ok ⟨word, .function (Builtin.target word) function⟩ := by
    rw [Library.resolve, hget]
  rw [executeNode, hkeeps, hresolve]
  exact happly word below m

/-- A frame of a single node that succeeds has its result. -/
theorem runFrame_singleton {node : Node} {stack next : Stack}
    (hnode : ∀ test consequent alternative place, node ≠ .branch test consequent alternative place)
    (h : ∀ m, (executeNode setting nested node stack m).1 = .ok next) (step : Nat) (m : Machine) :
    (runFrame setting nested step [node] stack m).1 = .ok next := by
  rw [runFrame_cons, stepNode_of_ne_branch _ _ hnode]
  rcases hexecute : executeNode setting nested node stack (traced setting step [node] stack m)
    with ⟨reply, k⟩
  obtain rfl : reply = .ok next := by
    rw [← h (traced setting step [node] stack m), hexecute]
  dsimp only [List.nil_append]
  rw [runFrame_nil]

/-! ## Texts of items -/

/-- Items are read as terms, and their words are the words of these terms. -/
theorem exists_terms {xs : List Lexeme} (h : IsItems Lexeme.kind xs) :
    ∃ clauses, Reads clauses xs ∧ definitionsOf clauses = [] ∧ termWords clauses = xs := by
  cases h with
  | nil => exact ⟨[], .nil, rfl, rfl⟩
  | @cons item rest hitem hrest =>
    -- An item is not empty, so the others are fewer lexemes.
    have hpositive : 0 < item.length := by
      cases hitem <;> simp
    obtain ⟨clauses, hreads, hterms, hwords⟩ := exists_terms hrest
    exact ⟨.term item :: clauses, .term hitem hreads, hterms, by rw [termWords_term, hwords]⟩
termination_by xs.length
decreasing_by
  rw [List.length_append]
  omega

/-- A text of items runs as the nodes that its words make. -/
theorem run_of_items (session : Session) (hstray : (scan source).stray = none)
    (hitems : IsItems Lexeme.kind (scan source).lexemes)
    (hnodes : MakeAll (Session.tokens name (scan source).lexemes) nodes)
    (stack : Stack) (verbosity : Nat) :
    session.run source stack name verbosity
      = session.settle ""
          (run (session.setting verbosity) depthLimit nodes stack session.machine) := by
  obtain ⟨clauses, hreads, hterms, hwords⟩ := exists_terms hitems
  have hparse : parse source name = .ok clauses := (parse_ok_iff hstray).mpr hreads
  rw [session.run_eq_perform hparse, Session.perform, hterms, hwords]
  simp only [Session.bindAll, assemble_of_assembles hnodes.assembles]

/-- Lexemes that are each an item make a node each. -/
theorem single_items_make {xs : List Lexeme}
    (h : List.Forall₂ (fun (x : Lexeme) node =>
      IsItem Lexeme.kind [x] ∧ Makes [x.token name] node) xs nodes) :
    IsItems Lexeme.kind xs ∧ MakeAll (Session.tokens name xs) nodes := by
  induction h with
  | nil => exact ⟨.nil, .nil⟩
  | cons hfirst _ ih => exact ⟨.cons hfirst.1 ih.1, .cons hfirst.2 ih.2⟩

/-! ## Texts of words -/

/-- Words, each alone on its place. -/
def Node.Names (nodes : List Node) (words : List String) : Prop :=
  List.Forall₂ (fun node word => ∃ place, node = .word word place) nodes words

/-- Lexemes for words make the nodes that name them. -/
theorem words_make {xs : List Lexeme}
    (h : List.Forall₂ (fun (x : Lexeme) word => x.kind = .word ∧ x.text = word) xs words)
    (name : Option String) :
    ∃ nodes, Node.Names nodes words
      ∧ IsItems Lexeme.kind xs ∧ MakeAll (Session.tokens name xs) nodes := by
  refine ⟨xs.map fun x => .word x.text (x.token name).settled, ?_, single_items_make ?_⟩
  · rw [Node.Names, List.forall₂_map_left_iff]
    exact h.imp fun x word hx => ⟨_, by rw [hx.2]⟩
  · have hwords : ∀ x ∈ xs, x.kind = .word := ((List.forall₂_and_left ..).mp h).1
    rw [List.forall₂_map_right_iff, List.forall₂_same]
    exact fun x hx => ⟨.literal (.inr (.inr (hwords x hx))), .word (hwords x hx)⟩

/-- Words that are joined with spaces run as the nodes that name them. -/
theorem run_of_words (session : Session) (h : ∀ word ∈ words, IsWord word)
    (name : Option String) (verbosity : Nat) :
    ∃ nodes, Node.Names nodes words ∧ ∀ stack,
      session.run (" ".intercalate words) stack name verbosity
        = session.settle ""
            (run (session.setting verbosity) depthLimit nodes stack session.machine) := by
  have hsingle : ∀ word ∈ words, (scan word).stray = none
      ∧ bareWords word = [⟨.word, word, 0, 0⟩] ∧ endsInComment word = false := by
    intro word hword
    have hscan := h word hword
    exact ⟨by rw [hscan], by rw [bareWords, hscan]; rfl, hscan.closed⟩
  obtain ⟨hstray, hwords⟩ := intercalate_singles hsingle
  -- The lexemes are the words, at whatever places.
  have hlexemes : List.Forall₂ (fun (x : Lexeme) word => x.kind = .word ∧ x.text = word)
      (scan (" ".intercalate words)).lexemes words := by
    rw [bareWords, ← List.forall₂_eq_eq_eq, List.forall₂_map_left_iff,
      List.forall₂_map_right_iff] at hwords
    refine hwords.imp fun x word hx => ?_
    exact ⟨congrArg Lexeme.kind hx, congrArg Lexeme.text hx⟩
  obtain ⟨nodes, hnames, hitems, hmake⟩ := words_make hlexemes name
  exact ⟨nodes, hnames, fun stack => run_of_items session hstray hitems hmake stack verbosity⟩

/-- A single word runs as the node that names it. -/
theorem run_of_word (session : Session) (h : IsWord word) (name : Option String)
    (verbosity : Nat) :
    ∃ place, ∀ stack,
      session.run word stack name verbosity
        = session.settle "" (run (session.setting verbosity) depthLimit [.word word place] stack
            session.machine) := by
  obtain ⟨nodes, hnames, hrun⟩ :=
    run_of_words session (List.forall_mem_singleton.mpr h) name verbosity
  obtain ⟨_, nodes, ⟨place, rfl⟩, hrest, rfl⟩ := List.forall₂_cons_right_iff.mp hnames
  obtain rfl : nodes = [] := List.forall₂_nil_right_iff.mp hrest
  exact ⟨place, hrun⟩

end StackCalc
