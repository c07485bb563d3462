/-
  StackCalc.Proofs.PlacedNodes

  Where the nodes of a program stand.  The grammar says which tokens a node is made of, and the
  first of them is the one that gives the node its place (`Makes`).  The assembly makes just
  these nodes (`Makes.assembles`), and every node at any depth is made of tokens that stand
  together in the program (`MakeAll.exists_item`), so its place selects the word that it starts
  with.
-/

import StackCalc.Proofs.Binding
import StackCalc.Proofs.Nesting
import StackCalc.Proofs.Positions

namespace StackCalc

open Grammar

/-! ## Nodes and their tokens -/

mutual

/-- The tokens of an item and the node that they make.  A node has the place of its first token:
    the word itself, the keyword of a directive, the opening bracket of a block, the test of a
    conditional. -/
inductive Makes : List Token → Node → Prop
  | number {x : Token} {value : Float} (hx : x.kind = .number)
      (hvalue : Double.read? x.text.toList = some value) : Makes [x] (.cell (.number value))
  | symbol {x : Token} (hx : x.kind = .symbol) :
      Makes [x] (.cell (.text (String.ofList (x.text.toList.drop 1))))
  | word {x : Token} (hx : x.kind = .word) : Makes [x] (.word x.text x.settled)
  | store {x name : Token} (hx : x.kind = .store) (hname : name.kind = .word) :
      Makes [x, name] (.store name.text x.settled)
  | fetch {x name : Token} (hx : x.kind = .fetch) (hname : name.kind = .word) :
      Makes [x, name] (.fetch name.text x.settled)
  | block {opening closing combinator : Token} {inner : List Token} {body : List Node}
      (hopening : opening.kind = .blockOpen) (hbody : MakeAll inner body)
      (hclosing : closing.kind = .blockClose) (hcombinator : combinator.kind = .combinator) :
      Makes (opening :: inner ++ [closing, combinator])
        (.block body (.ofKeyword combinator.text) opening.settled)
  | conditional {test ending : Token} {inner : List Token} {consequent : List Node}
      (htest : test.kind = .test) (hconsequent : MakeAll inner consequent)
      (hending : ending.kind = .testEnd) :
      Makes (test :: inner ++ [ending])
        (.branch (.ofKeyword test.text) consequent [] test.settled)
  | twofold {test middle ending : Token} {inner inner' : List Token}
      {consequent alternative : List Node} (htest : test.kind = .test)
      (hconsequent : MakeAll inner consequent) (hmiddle : middle.kind = .alternative)
      (halternative : MakeAll inner' alternative) (hending : ending.kind = .testEnd) :
      Makes (test :: inner ++ middle :: inner' ++ [ending])
        (.branch (.ofKeyword test.text) consequent alternative test.settled)

/-- The tokens of any number of items and a node for each. -/
inductive MakeAll : List Token → List Node → Prop
  | nil : MakeAll [] []
  | cons {item rest : List Token} {node : Node} {nodes : List Node} (hitem : Makes item node)
      (hrest : MakeAll rest nodes) : MakeAll (item ++ rest) (node :: nodes)

end

variable {xs : List Token} {node : Node} {nodes : List Node} {clauses : List Clause}
  {source : String} {name : Option String}

/-- A token that can be read, if it is of the kind of numbers. -/
def Token.IsReadable (x : Token) : Prop :=
  x.kind = .number → ∃ value, Double.read? x.text.toList = some value

theorem Token.Genuine.isReadable {x : Token} (h : x.Genuine) : x.IsReadable := by
  intro hx
  obtain ⟨numeral, _, hread⟩ := Double.read?_of_isNumeral (isNumeral_of_kindOf (h.symm.trans hx))
  exact ⟨_, hread⟩

mutual

/-- Every item whose numbers can be read makes a node. -/
theorem exists_makes : ∀ {xs : List Token}, IsItem Token.kind xs → (∀ x ∈ xs, x.IsReadable) →
    ∃ node, Makes xs node
  | _, .literal (x := x) hx, hreadable => by
    rcases hx with hx | hx | hx
    · obtain ⟨value, hread⟩ := List.forall_mem_singleton.mp hreadable hx
      exact ⟨_, .number hx hread⟩
    · exact ⟨_, .symbol hx⟩
    · exact ⟨_, .word hx⟩
  | _, .directive hx hname, _ => by
    rcases hx with hx | hx
    · exact ⟨_, .store hx hname⟩
    · exact ⟨_, .fetch hx hname⟩
  | _, .block hopening hbody hclosing hcombinator, hreadable => by
    obtain ⟨hfront, -⟩ := List.forall_mem_append.mp hreadable
    obtain ⟨body, hbody⟩ := exists_makeAll_of_readable hbody (List.forall_mem_cons.mp hfront).2
    exact ⟨_, .block hopening hbody hclosing hcombinator⟩
  | _, .conditional htest hconsequent hending, hreadable => by
    obtain ⟨hfront, -⟩ := List.forall_mem_append.mp hreadable
    obtain ⟨consequent, hconsequent⟩ :=
      exists_makeAll_of_readable hconsequent (List.forall_mem_cons.mp hfront).2
    exact ⟨_, .conditional htest hconsequent hending⟩
  | _, .twofold htest hconsequent hmiddle halternative hending, hreadable => by
    obtain ⟨hinside, -⟩ := List.forall_mem_append.mp hreadable
    obtain ⟨hfront, hback⟩ := List.forall_mem_append.mp hinside
    obtain ⟨consequent, hconsequent⟩ :=
      exists_makeAll_of_readable hconsequent (List.forall_mem_cons.mp hfront).2
    obtain ⟨alternative, halternative⟩ :=
      exists_makeAll_of_readable halternative (List.forall_mem_cons.mp hback).2
    exact ⟨_, .twofold htest hconsequent hmiddle halternative hending⟩

theorem exists_makeAll_of_readable : ∀ {xs : List Token}, IsItems Token.kind xs →
    (∀ x ∈ xs, x.IsReadable) → ∃ nodes, MakeAll xs nodes
  | _, .nil, _ => ⟨[], .nil⟩
  | _, .cons hitem hrest, hreadable => by
    obtain ⟨hfirst, hothers⟩ := List.forall_mem_append.mp hreadable
    obtain ⟨node, hnode⟩ := exists_makes hitem hfirst
    obtain ⟨nodes, hnodes⟩ := exists_makeAll_of_readable hrest hothers
    exact ⟨_, .cons hnode hnodes⟩

end

/-- Items of words of a text make a node each. -/
theorem exists_makeAll (h : IsItems Token.kind xs) (hgenuine : ∀ x ∈ xs, x.Genuine) :
    ∃ nodes, MakeAll xs nodes :=
  exists_makeAll_of_readable h fun x hx => (hgenuine x hx).isReadable

/-! ## The assembly makes these nodes -/

section

open Assembly

mutual

/-- The assembly makes of the tokens of an item the node that the grammar says. -/
theorem Makes.assembles : ∀ {xs : List Token} {node : Node}, Makes xs node →
    Assembles xs [node]
  | _, _, .number hx hvalue => .literal fun state => by simp only [State.item, hx, hvalue]
  | _, _, .symbol hx => .literal fun state => by rw [State.item, hx]
  | _, _, .word hx => .literal fun state => by rw [State.item, hx]
  | _, _, .store (x := x) hx hname =>
    .directive ⟨x.text, true, x.settled⟩ (fun state => by rw [State.item, hx]) hname
  | _, _, .fetch (x := x) hx hname =>
    .directive ⟨x.text, false, x.settled⟩ (fun state => by rw [State.item, hx]) hname
  | _, _, .block hopening hbody hclosing hcombinator =>
    .block hopening hbody.assembles hclosing hcombinator
  | _, _, .conditional htest hconsequent hending =>
    .conditional htest hconsequent.assembles hending
  | _, _, .twofold htest hconsequent hmiddle halternative hending =>
    .twofold htest hconsequent.assembles hmiddle halternative.assembles hending

theorem MakeAll.assembles : ∀ {xs : List Token} {nodes : List Node}, MakeAll xs nodes →
    Assembles xs nodes
  | _, _, .nil => .nil
  | _, _, .cons hitem hrest => hitem.assembles.append hrest.assembles

end

end

/-! ## Nodes inside of nodes -/

/-- The word that a node starts with. -/
def Node.opening : Node → String
  | cell c => c.quoted
  | word name _ => name
  | block .. => "["
  | branch test .. => test.keyword
  | store .. => "sto"
  | fetch .. => "rcl"

theorem Token.text_of_spelling {x : Token} {kind : Kind} {text : String} (hx : x.Genuine)
    (hkind : x.kind = kind) (hspelling : kind.spelling? = some text) : x.text = text := by
  rw [← hkind, hx] at hspelling
  exact text_of_kindOf hspelling

/-- A node has the place of its first token, and starts with the text of it. -/
theorem Makes.opens (h : Makes xs node) (hgenuine : ∀ x ∈ xs, x.Genuine) {place : Place}
    (hplace : node.place? = some place) :
    ∃ x rest, xs = x :: rest ∧ x.settled = place ∧ x.text = node.opening := by
  cases h with
  | number | symbol => cases hplace
  | @word x hx => exact ⟨x, [], rfl, Option.some.inj hplace, rfl⟩
  | @store x name hx | @fetch x name hx =>
    have hfirst : x.Genuine := hgenuine x (List.mem_cons_self ..)
    exact ⟨x, [name], rfl, Option.some.inj hplace, Token.text_of_spelling hfirst hx rfl⟩
  | @block x closing combinator inner body hx =>
    have hfirst : x.Genuine := hgenuine x (List.mem_cons_self ..)
    exact ⟨x, _, rfl, Option.some.inj hplace, Token.text_of_spelling hfirst hx rfl⟩
  | @conditional x | @twofold x =>
    exact ⟨x, _, rfl, Option.some.inj hplace, (Test.keyword_ofKeyword x.text).symm⟩

/-- Each of the nodes is made of some of the tokens, which stand together. -/
theorem MakeAll.exists_infix (h : MakeAll xs nodes) (hnode : node ∈ nodes) :
    ∃ item, item <:+: xs ∧ Makes item node := by
  induction nodes generalizing xs with
  | nil => cases hnode
  | cons first nodes ih =>
    cases h with
    | @cons item rest _ _ hitem hrest =>
      rcases List.mem_cons.mp hnode with rfl | hnode
      · exact ⟨item, (List.prefix_append item rest).isInfix, hitem⟩
      · obtain ⟨item', hpart, hmakes⟩ := ih hrest hnode
        exact ⟨item', hpart.trans (List.suffix_append item rest).isInfix, hmakes⟩

/-- The nodes inside of a block are made of tokens inside of its brackets. -/
theorem Makes.inside_block {body : List Node} {combinator : Combinator} {place : Place}
    (h : Makes xs (.block body combinator place)) : ∃ inner, inner <:+: xs ∧ MakeAll inner body := by
  cases h with
  | @block opening _ _ inner _ _ hbody =>
    exact ⟨inner, ⟨[opening], _, rfl⟩, hbody⟩

/-- The nodes of a branch are made of tokens inside of the conditional. -/
theorem Makes.inside_branch {test : Test} {consequent alternative : List Node} {place : Place}
    (h : Makes xs (.branch test consequent alternative place))
    (hnode : node ∈ consequent ++ alternative) : ∃ item, item <:+: xs ∧ Makes item node := by
  cases h with
  | @conditional opening ending inner _ _ hconsequent =>
    rw [List.append_nil] at hnode
    obtain ⟨item, hpart, hmakes⟩ := hconsequent.exists_infix hnode
    exact ⟨item, hpart.trans ⟨[opening], [ending], rfl⟩, hmakes⟩
  | @twofold opening middle ending inner inner' _ _ _ hconsequent _ halternative =>
    rcases List.mem_append.mp hnode with hnode | hnode
    · obtain ⟨item, hpart, hmakes⟩ := hconsequent.exists_infix hnode
      refine ⟨item, hpart.trans ⟨[opening], middle :: inner' ++ [ending], ?_⟩, hmakes⟩
      simp
    · obtain ⟨item, hpart, hmakes⟩ := halternative.exists_infix hnode
      refine ⟨item, hpart.trans ⟨opening :: inner ++ [middle], [ending], ?_⟩, hmakes⟩
      simp

/-- Every node at any depth is made of some of the tokens, which stand together. -/
theorem MakeAll.exists_item (h : MakeAll xs nodes) (hnode : Contains nodes node) :
    ∃ item, item <:+: xs ∧ Makes item node := by
  induction hnode with
  | own hmem => exact h.exists_infix hmem
  | block _ hmem ih =>
    obtain ⟨outer, houter, hmakes⟩ := ih
    obtain ⟨inner, hinner, hbody⟩ := hmakes.inside_block
    obtain ⟨item, hitem, hnode⟩ := hbody.exists_infix hmem
    exact ⟨item, (hitem.trans hinner).trans houter, hnode⟩
  | branch _ hmem ih =>
    obtain ⟨outer, houter, hmakes⟩ := ih
    obtain ⟨item, hitem, hnode⟩ := hmakes.inside_branch hmem
    exact ⟨item, hitem.trans houter, hnode⟩

/-! ## The lines of a program -/

/-- Each token of a text widens the extent by its line. -/
theorem foldl_widened (words : List Lexeme) (extent : Extent) :
    (Session.tokens name words).foldl Assembly.widened extent
      = ⟨extent.name, (words.map fun x => (x.line : Int)).foldl min extent.first,
          (words.map fun x => (x.line : Int)).foldl max extent.last⟩ := by
  induction words generalizing extent with
  | nil => rfl
  | cons x words ih => exact ih (extent.widen (x.line, x.line))

/-- A program that keeps the places of the words it is made of.  Its nodes are those that the
    grammar makes of the words, each of them, however deep, has a place that selects the word
    that it starts with, and its extent goes from the least to the greatest line of the given
    lines and those of the words. -/
structure KeepsPlaces (source : String) (name : Option String) (words : List Lexeme)
    (extent : Extent) (program : Program) : Prop where
  made : MakeAll (Session.tokens name words) program.nodes
  selected : ∀ node place, Contains program.nodes node → node.place? = some place →
    place.selected? source = some node.opening
  named : program.extent.name = extent.name
  first : (extent.first :: words.map fun x => (x.line : Int)).min? = some program.extent.first
  last : (extent.last :: words.map fun x => (x.line : Int)).max? = some program.extent.last

/-- Words of a text that make up items are assembled to a program that keeps their places. -/
theorem exists_keepsPlaces {words : List Lexeme} (hitems : IsItems Lexeme.kind words)
    (hwords : ∀ x ∈ words, x.Genuine) (hstand : ∀ x ∈ words, x.StandsIn source)
    (extent : Extent) :
    ∃ program, assemble (Session.tokens name words) extent = .ok program
      ∧ KeepsPlaces source name words extent program := by
  have hgenuine := genuine_tokens name hwords
  obtain ⟨nodes, hnodes⟩ := exists_makeAll (items_tokens name hitems) hgenuine
  have hassemble := assemble_of_assembles hnodes.assembles extent
  rw [← Session.tokens, foldl_widened] at hassemble
  refine ⟨_, hassemble, hnodes, ?_, rfl, List.min?_cons', List.max?_cons'⟩
  intro node place hnode hplace
  obtain ⟨item, hpart, hmakes⟩ := hnodes.exists_item hnode
  obtain ⟨token, rest, rfl, rfl, hopening⟩ :=
    hmakes.opens (fun x hx => hgenuine x (hpart.subset hx)) hplace
  -- The token that the node starts with is that of a word of the text.
  obtain ⟨x, hx, rfl⟩ := List.mem_map.mp (hpart.subset (List.mem_cons_self ..))
  rw [← hopening]
  exact (hstand x hx).selected? name

/-! ## Whole texts -/

/-- The words of a clause that are passed on to the assembly, and the name of a definition. -/
def Clause.words : Clause → List Lexeme
  | .definition name body => name :: body
  | .term words => words

/-- The words of the clauses come in the order of the text; what is left out are the brackets of
    the definitions. -/
theorem Clause.Reads.sublist {xs : List Lexeme} (h : Clause.Reads clauses xs) :
    (clauses.flatMap Clause.words).Sublist xs := by
  induction h with
  | nil => exact .slnil
  | @definition clauses opening head closing body rest _ _ _ _ _ ih =>
    rw [List.flatMap_cons, Clause.words, List.cons_append]
    exact ((List.Sublist.refl (head :: body)).cons opening).append (ih.cons closing)
  | term _ _ ih =>
    rw [List.flatMap_cons, Clause.words]
    exact (List.Sublist.refl _).append ih

/-- Places are faithful from the text to the nodes.  The place of every word of a text that
    parses selects the word, positions grow in the order of the words, and the definitions and
    the terms are assembled to programs that keep the places of their words. -/
theorem parse_keeps_places (source : String) (name : Option String) (clauses : List Clause)
    (h : parse source name = .ok clauses) :
    (∀ x ∈ clauses.flatMap Clause.words,
      (x.token name).settled.selected? source = some x.text) ∧
    ((clauses.flatMap Clause.words).Pairwise fun x y => x.position.Before y.position) ∧
    (∀ head body, (head, body) ∈ definitionsOf clauses → ∀ extent, ∃ program,
      assemble (Session.tokens name body) extent = .ok program
        ∧ KeepsPlaces source name body extent program) ∧
    ∀ extent, ∃ program,
      assemble (Session.tokens name (termWords clauses)) extent = .ok program
        ∧ KeepsPlaces source name (termWords clauses) extent program := by
  have hreads := (parse_ok_iff (stray_eq_none_of_parse h)).mp h
  have hplaced := (scanFrom_placed .start source.toList).sublist hreads.sublist
  have hgenuine : ∀ x ∈ (scan source).lexemes, x.Genuine := fun x hx => genuine_of_mem_scan hx
  have hstand : ∀ x ∈ (scan source).lexemes, x.StandsIn source :=
    fun x hx => standsIn_of_mem_scan hx
  refine ⟨?_, hplaced.pairwise, ?_, ?_⟩
  · intro x hx
    exact (hstand x (hreads.sublist.subset hx)).selected? name
  · intro head body hmem
    obtain ⟨hitems, hsub⟩ := hreads.definition_items hmem
    exact exists_keepsPlaces hitems (fun x hx => hgenuine x (hsub hx))
      fun x hx => hstand x (hsub hx)
  · obtain ⟨hitems, hsub⟩ := hreads.term_items
    exact exists_keepsPlaces hitems (fun x hx => hgenuine x (hsub hx))
      fun x hx => hstand x (hsub hx)

/-- A comment over two lines moves the words behind it to the second, and the nodes inside of a
    conditional inside of a block keep their own places. -/
theorem parse_keeps_places_nested :
    ∃ clauses, parse "( f < a\nb > sto x )\n[ ifgt 'a else dup fi ] map" none = .ok clauses ∧
      (clauses.flatMap Clause.words).map Lexeme.position
        = [⟨1, 3⟩, ⟨2, 5⟩, ⟨2, 9⟩, ⟨3, 1⟩, ⟨3, 3⟩, ⟨3, 8⟩, ⟨3, 11⟩, ⟨3, 16⟩, ⟨3, 20⟩, ⟨3, 23⟩,
          ⟨3, 25⟩] ∧
      (∀ x ∈ clauses.flatMap Clause.words, (x.token none).settled.selected?
        "( f < a\nb > sto x )\n[ ifgt 'a else dup fi ] map" = some x.text) ∧
      ∃ program, assemble (Session.tokens none (termWords clauses)) (.empty none) = .ok program ∧
        KeepsPlaces "( f < a\nb > sto x )\n[ ifgt 'a else dup fi ] map" none (termWords clauses)
          (.empty none) program := by
  have hwords : scan "( f < a\nb > sto x )\n[ ifgt 'a else dup fi ] map"
      = ⟨[⟨.definitionStart, "(", 1, 1⟩, ⟨.word, "f", 1, 3⟩, ⟨.store, "sto", 2, 5⟩,
          ⟨.word, "x", 2, 9⟩, ⟨.definitionEnd, ")", 2, 11⟩, ⟨.blockOpen, "[", 3, 1⟩,
          ⟨.test, "ifgt", 3, 3⟩, ⟨.symbol, "'a", 3, 8⟩, ⟨.alternative, "else", 3, 11⟩,
          ⟨.word, "dup", 3, 16⟩, ⟨.testEnd, "fi", 3, 20⟩, ⟨.blockClose, "]", 3, 23⟩,
          ⟨.combinator, "map", 3, 25⟩], none⟩ := by decide +kernel
  have hparse : parse "( f < a\nb > sto x )\n[ ifgt 'a else dup fi ] map" none
      = .ok [.definition ⟨.word, "f", 1, 3⟩ [⟨.store, "sto", 2, 5⟩, ⟨.word, "x", 2, 9⟩],
          .term [⟨.blockOpen, "[", 3, 1⟩, ⟨.test, "ifgt", 3, 3⟩, ⟨.symbol, "'a", 3, 8⟩,
            ⟨.alternative, "else", 3, 11⟩, ⟨.word, "dup", 3, 16⟩, ⟨.testEnd, "fi", 3, 20⟩,
            ⟨.blockClose, "]", 3, 23⟩, ⟨.combinator, "map", 3, 25⟩]] := by
    simp only [parse, hwords]
    rfl
  obtain ⟨hselected, -, -, hterms⟩ := parse_keeps_places _ none _ hparse
  exact ⟨_, hparse, rfl, hselected, hterms (.empty none)⟩

end StackCalc
