/-
  StackCalc.Proofs.Reconstruction

  The assembly of a program undoes the flattening of its text.  Over the tokens of an
  item the assembly adds one node and leaves alone everything that is open around it
  (`item_assembles`), and the node flattens back to the words of the item, but for an
  empty alternative.  So every text that parses can be assembled, and its programs
  flatten back to its words (`parse_assembles`).
-/

import StackCalc.Node.Assembly
import StackCalc.Proofs.Recognition
import StackCalc.Proofs.Words

namespace StackCalc

open Grammar

/-! ## Flattening -/

/-- What a program keeps of a word: of a number the double, of any other word how it is
    written. -/
inductive Gist where
  | number (value : Option Float)
  | written (kind : Kind) (text : String)

/-- What a program keeps of a word of a kind. -/
def Gist.of (kind : Kind) (text : String) : Gist :=
  if kind = .number then .number (Double.read? text.toList) else .written kind text

/-- What a program keeps of a lexeme. -/
def Lexeme.gist (x : Lexeme) : Gist := .of x.kind x.text

/-- What a program keeps of a token. -/
def Token.gist (x : Token) : Gist := .of x.kind x.text

namespace Node

mutual

/-- The words of a node, in the order of the text.  A conditional without an alternative
    has no middle. -/
def flatten : Node → List Gist
  | cell (.number x) => [.number (some x)]
  | cell (.text s) => [.written .symbol (String.ofList (Text.singleQuote :: s.toList))]
  | word name _ => [.written .word name]
  | block body combinator _ =>
    .written .blockOpen "[" :: flattenAll body
      ++ [.written .blockClose "]", .written .combinator combinator.keyword]
  | branch test consequent alternative _ =>
    .written .test test.keyword :: flattenAll consequent
      ++ (if alternative.isEmpty then []
        else .written .alternative "else" :: flattenAll alternative)
      ++ [.written .testEnd "fi"]
  | store name _ => [.written .store "sto", .written .word name]
  | fetch name _ => [.written .fetch "rcl", .written .word name]

/-- The words of all nodes of a list. -/
def flattenAll : List Node → List Gist
  | [] => []
  | node :: rest => flatten node ++ flattenAll rest

end

theorem flattenAll_append (p q : List Node) :
    flattenAll (p ++ q) = flattenAll p ++ flattenAll q := by
  induction p with
  | nil => rw [flattenAll, List.nil_append, List.nil_append]
  | cons node rest ih =>
    rw [List.cons_append, flattenAll, flattenAll, ih, List.append_assoc]

end Node

/-- One more word in front, unless the two would be an empty alternative. -/
def Gist.before : Gist → List Gist → List Gist
  | written .alternative _, written .testEnd text :: rest => written .testEnd text :: rest
  | gist, rest => gist :: rest

/-- The words without empty alternatives. -/
def dropEmptyElse (gists : List Gist) : List Gist :=
  gists.foldr Gist.before []

theorem Gist.before_of_kind {kind : Kind} (h : kind ≠ .alternative) (text : String)
    (rest : List Gist) : (Gist.of kind text).before rest = Gist.of kind text :: rest := by
  unfold Gist.of
  split
  · rfl
  · unfold before
    split
    · rename_i heq
      exact absurd (written.inj heq).1 h
    · rfl

namespace Assembly

variable {xs ys rest : List Token} {nodes : List Node} {x : Token}
  {output : List Node} {pending : List Pending} {extent : Extent}

/-! ## Assembling -/

/-- An extent with the lines of one more token. -/
def widened (extent : Extent) (x : Token) : Extent :=
  match x.lines with
  | some lines => extent.widen lines
  | none => extent

theorem step_item :
    State.step ⟨output, pending, none, extent⟩ x
      = State.item ⟨output, pending, none, widened extent x⟩ x := by
  unfold State.step widened
  cases x.lines <;> rfl

theorem step_name {directive : Directive} (hx : x.kind = .word) :
    State.step ⟨output, pending, some directive, extent⟩ x
      = .ok ⟨directive.node x.text :: output, pending, none, widened extent x⟩ := by
  unfold State.step widened
  cases x.lines <;> simp [hx]

/-- The assembly gets over some tokens, adds nodes for them to the innermost construct, and
    leaves alone what is open around it. -/
def Assembles (xs : List Token) (nodes : List Node) : Prop :=
  ∀ output pending extent rest,
    (xs ++ rest).foldlM State.step ⟨output, pending, none, extent⟩
      = rest.foldlM State.step
          ⟨nodes.reverse ++ output, pending, none, xs.foldl widened extent⟩

theorem foldlM_of_step {state next : State} (h : state.step x = .ok next) :
    (x :: rest).foldlM State.step state = rest.foldlM State.step next := by
  rw [List.foldlM_cons, h]
  rfl

theorem foldlM_of_item {next : State}
    (h : State.item ⟨output, pending, none, widened extent x⟩ x = .ok next) :
    (x :: rest).foldlM State.step ⟨output, pending, none, extent⟩
      = rest.foldlM State.step next :=
  foldlM_of_step (step_item.trans h)

theorem Assembles.nil : Assembles [] [] := by
  intro output pending extent rest
  rfl

theorem Assembles.append {more : List Node} (h : Assembles xs nodes) (h' : Assembles ys more) :
    Assembles (xs ++ ys) (nodes ++ more) := by
  intro output pending extent rest
  rw [List.append_assoc, h, h', List.reverse_append, List.append_assoc, List.foldl_append]

/-- A token that is a node by itself. -/
theorem Assembles.literal {node : Node}
    (h : ∀ state : State, state.item x = .ok (state.push node)) : Assembles [x] [node] := by
  intro output pending extent rest
  exact foldlM_of_item (h _)

theorem Assembles.directive {name : Token} (directive : Directive)
    (hx : ∀ state : State, state.item x = .ok { state with directive := some directive })
    (hname : name.kind = .word) : Assembles [x, name] [directive.node name.text] := by
  intro output pending extent rest
  rw [List.cons_append, foldlM_of_item (hx _), List.singleton_append,
    foldlM_of_step (step_name hname)]
  rfl

/-! ## Constructs -/

/-- The construct that a word opens by its kind alone. -/
def Opener.of? : Kind → Option Opener
  | .blockOpen => some .block
  | .blockClose => some .blockEnd
  | .test => some .test
  | _ => none

/-- An opening word puts the nodes before it aside. -/
theorem item_opens {opener : Opener} (hx : Opener.of? x.kind = some opener) :
    State.item ⟨output, pending, none, extent⟩ x
      = .ok ⟨[], ⟨output, opener, x.text, x.settled⟩ :: pending, none, extent⟩ := by
  unfold Opener.of? at hx
  split at hx
  case h_4 => cases hx
  all_goals
    rename_i hkind
    cases hx
    rw [State.item, hkind]
    rfl

/-- The combinator takes the block whose closing bracket is the innermost open construct. -/
theorem item_combinator {before : List Node} {opener : Opener} {text text' : String}
    {place place' : Place} (hx : x.kind = .combinator) :
    State.item ⟨output, ⟨nodes.reverse, .blockEnd, text', place'⟩ ::
        ⟨before, opener, text, place⟩ :: pending, none, extent⟩ x
      = .ok ⟨.block nodes (.ofKeyword x.text) place :: before, pending, none, extent⟩ := by
  simp only [State.item, hx, State.closeBlock, List.reverse_reverse]

theorem item_alternative {before : List Node} {text : String} {place : Place}
    (hx : x.kind = .alternative) :
    State.item ⟨output, ⟨before, .test, text, place⟩ :: pending, none, extent⟩ x
      = .ok ⟨[], ⟨output, .alternative, x.text, x.settled⟩ ::
          ⟨before, .test, text, place⟩ :: pending, none, extent⟩ := by
  rw [State.item, hx]
  rfl

theorem item_testEnd {before : List Node} {text : String} {place : Place}
    (hx : x.kind = .testEnd) :
    State.item ⟨nodes.reverse, ⟨before, .test, text, place⟩ :: pending, none, extent⟩ x
      = .ok ⟨.branch (.ofKeyword text) nodes [] place :: before, pending, none, extent⟩ := by
  simp only [State.item, hx, State.closeTest, List.reverse_reverse]

theorem item_testEnd_alternative {before more : List Node} {text text' : String}
    {place place' : Place} (hx : x.kind = .testEnd) :
    State.item ⟨more.reverse, ⟨nodes.reverse, .alternative, text', place'⟩ ::
        ⟨before, .test, text, place⟩ :: pending, none, extent⟩ x
      = .ok ⟨.branch (.ofKeyword text) nodes more place :: before, pending, none, extent⟩ := by
  simp only [State.item, hx, State.closeTest, List.reverse_reverse]

theorem Assembles.block {opening closing combinator : Token} {body : List Token}
    (hopening : opening.kind = .blockOpen) (hbody : Assembles body nodes)
    (hclosing : closing.kind = .blockClose) (hcombinator : combinator.kind = .combinator) :
    Assembles (opening :: body ++ [closing, combinator])
      [.block nodes (.ofKeyword combinator.text) opening.settled] := by
  intro output pending extent rest
  have hopens := congrArg Opener.of? hopening
  have hcloses := congrArg Opener.of? hclosing
  -- The body is put aside behind the opening bracket's nodes until the combinator comes.
  rw [List.append_assoc, List.cons_append, foldlM_of_item (item_opens hopens), hbody,
    List.append_nil, List.cons_append, foldlM_of_item (item_opens hcloses),
    List.singleton_append, foldlM_of_item (item_combinator hcombinator), List.foldl_append]
  rfl

theorem Assembles.conditional {test ending : Token} {consequent : List Token}
    (htest : test.kind = .test) (hconsequent : Assembles consequent nodes)
    (hending : ending.kind = .testEnd) :
    Assembles (test :: consequent ++ [ending])
      [.branch (.ofKeyword test.text) nodes [] test.settled] := by
  intro output pending extent rest
  have hopens := congrArg Opener.of? htest
  rw [List.append_assoc, List.cons_append, foldlM_of_item (item_opens hopens), hconsequent,
    List.append_nil, List.singleton_append, foldlM_of_item (item_testEnd hending),
    List.foldl_append]
  rfl

theorem Assembles.twofold {test middle ending : Token} {consequent alternative : List Token}
    {more : List Node} (htest : test.kind = .test) (hconsequent : Assembles consequent nodes)
    (hmiddle : middle.kind = .alternative) (halternative : Assembles alternative more)
    (hending : ending.kind = .testEnd) :
    Assembles (test :: consequent ++ middle :: alternative ++ [ending])
      [.branch (.ofKeyword test.text) nodes more test.settled] := by
  intro output pending extent rest
  have hopens := congrArg Opener.of? htest
  -- The consequent is put aside above the conditional's own entry, and both are taken back.
  rw [List.append_assoc, List.append_assoc, List.cons_append, foldlM_of_item (item_opens hopens),
    hconsequent, List.append_nil, List.cons_append, foldlM_of_item (item_alternative hmiddle),
    halternative, List.append_nil, List.singleton_append,
    foldlM_of_item (item_testEnd_alternative hending), List.foldl_append, List.foldl_append]
  rfl

end Assembly

/-! ## Flattening what was assembled -/

/-- A token whose kind is that of its text. -/
def Token.Genuine (x : Token) : Prop := x.kind = kindOf x.text.toList

theorem Token.gist_of_kind {x : Token} {kind : Kind} (hkind : x.kind = kind)
    (hnumber : kind ≠ .number) : x.gist = .written kind x.text := by
  rw [gist, hkind]
  exact if_neg hnumber

theorem Token.gist_of_spelling {x : Token} {kind : Kind} {text : String} (hx : x.Genuine)
    (hkind : x.kind = kind) (hspelling : kind.spelling? = some text) :
    x.gist = .written kind text := by
  have hnumber : kind ≠ .number := by
    rintro rfl
    cases hspelling
  rw [← hkind, hx] at hspelling
  rw [gist_of_kind hkind hnumber, text_of_kindOf hspelling]

/-- No node starts with the end of a conditional. -/
theorem Node.flatten_eq_cons (node : Node) :
    ∃ first rest, node.flatten = first :: rest ∧ ∀ text, first ≠ .written .testEnd text := by
  cases node with
  | cell c => cases c <;> exact ⟨_, _, by rw [flatten], by simp⟩
  | block body combinator place =>
    exact ⟨_, _, by rw [flatten, List.cons_append], by simp⟩
  | branch test consequent alternative place =>
    exact ⟨_, _, by rw [flatten, List.cons_append, List.cons_append], by simp⟩
  | _ => exact ⟨_, _, by rw [flatten], by simp⟩

theorem Gist.before_alternative {first : Gist} {rest : List Gist}
    (h : ∀ text, first ≠ .written .testEnd text) (text : String) :
    (written .alternative text).before (first :: rest) = .written .alternative text :: first :: rest := by
  unfold before
  split
  · rename_i heq
    exact absurd (List.cons.inj heq).1 (h _)
  · rfl

/-- The nodes flatten to the words of the tokens, but for empty alternatives, whatever
    comes behind them. -/
def Flattens (xs : List Token) (nodes : List Node) : Prop :=
  ∀ behind, (xs.map Token.gist).foldr Gist.before behind = Node.flattenAll nodes ++ behind

namespace Flattens

variable {xs ys body consequent alternative : List Token} {nodes more : List Node}
  {x opening closing combinator test middle ending name : Token} {place : Place}

theorem nil : Flattens [] [] := by
  intro behind
  rw [Node.flattenAll]
  rfl

theorem single {node : Node} (hkind : x.kind ≠ .alternative) (h : node.flatten = [x.gist]) :
    Flattens [x] [node] := by
  intro behind
  rw [Node.flattenAll, Node.flattenAll, h]
  exact Gist.before_of_kind hkind x.text behind

theorem append (h : Flattens xs nodes) (h' : Flattens ys more) :
    Flattens (xs ++ ys) (nodes ++ more) := by
  intro behind
  rw [List.map_append, List.foldr_append, h', h, Node.flattenAll_append, List.append_assoc]

theorem block (hopening : opening.gist = .written .blockOpen "[") (hbody : Flattens body nodes)
    (hclosing : closing.gist = .written .blockClose "]") (hcombinator : combinator.kind = .combinator) :
    Flattens (opening :: body ++ [closing, combinator])
      [.block nodes (.ofKeyword combinator.text) place] := by
  intro behind
  simp only [List.map_append, List.map_cons, List.map_nil, List.foldr_append, List.foldr_cons,
    List.foldr_nil]
  rw [hbody, hopening, hclosing, Token.gist_of_kind hcombinator (by simp), Node.flattenAll,
    Node.flattenAll, Node.flatten, Combinator.keyword_ofKeyword]
  simp [Gist.before]

theorem conditional (htest : test.kind = .test) (hconsequent : Flattens consequent nodes)
    (hending : ending.gist = .written .testEnd "fi") :
    Flattens (test :: consequent ++ [ending])
      [.branch (.ofKeyword test.text) nodes [] place] := by
  intro behind
  simp only [List.map_append, List.map_cons, List.map_nil, List.foldr_append, List.foldr_cons,
    List.foldr_nil]
  rw [hconsequent, hending, Token.gist_of_kind htest (by simp), Node.flattenAll,
    Node.flattenAll, Node.flatten, Test.keyword_ofKeyword]
  simp [Gist.before]

theorem twofold (htest : test.kind = .test) (hconsequent : Flattens consequent nodes)
    (hmiddle : middle.gist = .written .alternative "else")
    (halternative : Flattens alternative more) (hending : ending.gist = .written .testEnd "fi") :
    Flattens (test :: consequent ++ middle :: alternative ++ [ending])
      [.branch (.ofKeyword test.text) nodes more place] := by
  intro behind
  simp only [List.map_append, List.map_cons, List.map_nil, List.foldr_append, List.foldr_cons,
    List.foldr_nil]
  rw [halternative, hconsequent, hmiddle, hending, Token.gist_of_kind htest (by simp),
    Node.flattenAll, Node.flattenAll, Node.flatten, Test.keyword_ofKeyword]
  -- The middle is dropped exactly if the end of the conditional follows it at once.
  cases more with
  | nil => simp [Gist.before, Node.flattenAll]
  | cons node rest =>
    obtain ⟨first, tail, hnode, hfirst⟩ := node.flatten_eq_cons
    rw [Node.flattenAll, hnode, List.cons_append, List.cons_append,
      Gist.before_alternative hfirst]
    simp [Gist.before]

theorem directive (directive : Assembly.Directive) (hkind : x.kind ≠ .alternative)
    (hname : name.kind = .word)
    (h : (directive.node name.text).flatten = [x.gist, .written .word name.text]) :
    Flattens [x, name] [directive.node name.text] := by
  intro behind
  simp only [List.map_cons, List.map_nil, List.foldr_cons, List.foldr_nil]
  rw [Node.flattenAll, Node.flattenAll, h, Token.gist_of_kind hname (by simp)]
  exact Gist.before_of_kind hkind x.text _

end Flattens

/-! ## Items -/

namespace Assembly

/-- A literal becomes the node that keeps it. -/
theorem literal_assembles {x : Token} (hx : x.kind = .number ∨ x.kind = .symbol ∨ x.kind = .word)
    (hgenuine : x.Genuine) : ∃ node, Assembles [x] [node] ∧ Flattens [x] [node] := by
  have hkind : x.kind ≠ .alternative := by
    intro halternative
    rw [halternative] at hx
    simp at hx
  rcases hx with hx | hx | hx
  · -- The kind of a number promises a numeral, and every numeral can be read.
    obtain ⟨numeral, _, hread⟩ :=
      Double.read?_of_isNumeral (isNumeral_of_kindOf (hgenuine.symm.trans hx))
    refine ⟨.cell (.number numeral.value), .literal ?_, .single hkind ?_⟩
    · intro state
      simp only [State.item, hx, hread]
    · rw [Node.flatten, Token.gist, Gist.of, if_pos hx, hread]
  · refine ⟨.cell (.text (String.ofList (x.text.toList.drop 1))), .literal ?_, .single hkind ?_⟩
    · intro state
      rw [State.item, hx]
    · rw [Node.flatten, String.toList_ofList, quote_of_kindOf (hgenuine.symm.trans hx),
        Token.gist_of_kind hx (by simp)]
  · refine ⟨.word x.text x.settled, .literal ?_, .single hkind ?_⟩
    · intro state
      rw [State.item, hx]
    · rw [Node.flatten, Token.gist_of_kind hx (by simp)]

/-- A directive and its name become one node. -/
theorem directive_assembles {x name : Token} (hx : x.kind = .store ∨ x.kind = .fetch)
    (hname : name.kind = .word) (hgenuine : x.Genuine) :
    ∃ node, Assembles [x, name] [node] ∧ Flattens [x, name] [node] := by
  have hkind : x.kind ≠ .alternative := by
    intro halternative
    rw [halternative] at hx
    simp at hx
  rcases hx with hx | hx
  · refine ⟨_, .directive ⟨x.text, true, x.settled⟩ ?_ hname, .directive _ hkind hname ?_⟩
    · intro state
      rw [State.item, hx]
    · rw [Token.gist_of_spelling hgenuine hx rfl]
      rfl
  · refine ⟨_, .directive ⟨x.text, false, x.settled⟩ ?_ hname, .directive _ hkind hname ?_⟩
    · intro state
      rw [State.item, hx]
    · rw [Token.gist_of_spelling hgenuine hx rfl]
      rfl

mutual

/-- An item is assembled to one node, which flattens to the words of the item. -/
theorem item_assembles : ∀ {xs : List Token}, IsItem Token.kind xs → (∀ x ∈ xs, x.Genuine) →
    ∃ node, Assembles xs [node] ∧ Flattens xs [node]
  | _, .literal hx, hgenuine => literal_assembles hx (List.forall_mem_singleton.mp hgenuine)
  | _, .directive hx hname, hgenuine =>
    directive_assembles hx hname (List.forall_mem_cons.mp hgenuine).1
  | _, .block hopening hbody hclosing hcombinator, hgenuine => by
    simp only [List.forall_mem_append, List.forall_mem_cons] at hgenuine
    obtain ⟨⟨hopen, hinside⟩, hclose, _⟩ := hgenuine
    obtain ⟨nodes, hassembles, hflattens⟩ := items_assemble hbody hinside
    exact ⟨_, .block hopening hassembles hclosing hcombinator,
      .block (Token.gist_of_spelling hopen hopening rfl) hflattens
        (Token.gist_of_spelling hclose hclosing rfl) hcombinator⟩
  | _, .conditional htest hconsequent hending, hgenuine => by
    simp only [List.forall_mem_append, List.forall_mem_cons] at hgenuine
    obtain ⟨⟨_, hinside⟩, hend, _⟩ := hgenuine
    obtain ⟨nodes, hassembles, hflattens⟩ := items_assemble hconsequent hinside
    exact ⟨_, .conditional htest hassembles hending,
      .conditional htest hflattens (Token.gist_of_spelling hend hending rfl)⟩
  | _, .twofold htest hconsequent hmiddle halternative hending, hgenuine => by
    simp only [List.forall_mem_append, List.forall_mem_cons] at hgenuine
    obtain ⟨⟨⟨_, hinside⟩, helse, hinside'⟩, hend, _⟩ := hgenuine
    obtain ⟨nodes, hassembles, hflattens⟩ := items_assemble hconsequent hinside
    obtain ⟨more, hassembles', hflattens'⟩ := items_assemble halternative hinside'
    exact ⟨_, .twofold htest hassembles hmiddle hassembles' hending,
      .twofold htest hflattens (Token.gist_of_spelling helse hmiddle rfl) hflattens'
        (Token.gist_of_spelling hend hending rfl)⟩

/-- A sequence of items is assembled to a node for each. -/
theorem items_assemble : ∀ {xs : List Token}, IsItems Token.kind xs → (∀ x ∈ xs, x.Genuine) →
    ∃ nodes, Assembles xs nodes ∧ Flattens xs nodes
  | _, .nil, _ => ⟨[], .nil, .nil⟩
  | _, .cons hitem hrest, hgenuine => by
    obtain ⟨hfirst, hothers⟩ := List.forall_mem_append.mp hgenuine
    obtain ⟨node, hassembles, hflattens⟩ := item_assembles hitem hfirst
    obtain ⟨nodes, hassembles', hflattens'⟩ := items_assemble hrest hothers
    exact ⟨_, hassembles.append hassembles', hflattens.append hflattens'⟩

end

end Assembly

open Assembly

/-- Tokens that the assembly gets over make the program of the nodes that it adds for them. -/
theorem assemble_of_assembles {xs : List Token} {nodes : List Node} (h : Assembles xs nodes)
    (extent : Extent) : assemble xs extent = .ok ⟨nodes, xs.foldl widened extent⟩ := by
  -- Nothing is open at the start, so nothing is open at the end.
  have hrun := h [] [] extent []
  rw [List.append_nil, List.append_nil] at hrun
  rw [assemble, State.start, hrun]
  simp only [List.foldlM_nil, pure, Except.pure, Except.bind, State.finish, List.reverse_reverse]
  rfl

/-- A sequence of items always makes a program, which flattens to its words. -/
theorem assemble_of_items {xs : List Token} (h : IsItems Token.kind xs)
    (hgenuine : ∀ x ∈ xs, x.Genuine) (extent : Extent) :
    ∃ nodes, assemble xs extent = .ok ⟨nodes, xs.foldl widened extent⟩
      ∧ Node.flattenAll nodes = dropEmptyElse (xs.map Token.gist) := by
  obtain ⟨nodes, hassembles, hflattens⟩ := items_assemble h hgenuine
  refine ⟨nodes, assemble_of_assembles hassembles extent, ?_⟩
  rw [dropEmptyElse, hflattens, List.append_nil]

/-! ## Whole texts -/

/-- A word as a list of words shows it. -/
def Lexeme.spelled (x : Lexeme) : Kind × String := (x.kind, x.text)

/-- The words of a clause, with the brackets of a definition. -/
def Clause.spelled : Clause → List (Kind × String)
  | .definition name body =>
    (.definitionStart, "(") :: (name :: body).map Lexeme.spelled ++ [(.definitionEnd, ")")]
  | .term words => words.map Lexeme.spelled

/-- Words make a program, whatever its origin and its extent, and it flattens back to
    them, but for empty alternatives. -/
def Reassembles (words : List Lexeme) : Prop :=
  ∀ origin extent, ∃ program,
    assemble (words.map (Lexeme.token origin)) extent = .ok program ∧
      Node.flattenAll program.nodes = dropEmptyElse (words.map Lexeme.gist)

/-- Tokens keep the kinds and the texts of their lexemes. -/
theorem genuine_tokens (origin : Option String) {words : List Lexeme}
    (h : ∀ x ∈ words, x.Genuine) : ∀ x ∈ words.map (Lexeme.token origin), x.Genuine := by
  intro x hx
  obtain ⟨word, hword, rfl⟩ := List.mem_map.mp hx
  exact h word hword

/-- The tokens of items are items. -/
theorem items_tokens (origin : Option String) {words : List Lexeme}
    (h : IsItems Lexeme.kind words) :
    IsItems Token.kind (words.map (Lexeme.token origin)) := by
  refine h.map.of_map _ ?_
  rw [List.map_map]
  rfl

theorem reassembles_of_items {words : List Lexeme} (h : IsItems Lexeme.kind words)
    (hgenuine : ∀ x ∈ words, x.Genuine) : Reassembles words := by
  intro origin extent
  obtain ⟨nodes, hassemble, hflatten⟩ :=
    assemble_of_items (items_tokens origin h) (genuine_tokens origin hgenuine) extent
  refine ⟨_, hassemble, ?_⟩
  rw [hflatten, List.map_map]
  rfl

namespace Clause

variable {clauses : List Clause} {xs : List Lexeme}

theorem spelled_of_kind {x : Lexeme} {kind : Kind} {text : String}
    (hx : x.Genuine) (hkind : x.kind = kind)
    (hspelling : kind.spelling? = some text) : x.spelled = (kind, text) := by
  rw [← hkind, hx] at hspelling
  rw [Lexeme.spelled, hkind, text_of_kindOf hspelling]

/-- No word is lost between a text and its clauses. -/
theorem Reads.spelled (h : Reads clauses xs) (hgenuine : ∀ x ∈ xs, x.Genuine) :
    clauses.flatMap Clause.spelled = xs.map Lexeme.spelled := by
  induction h with
  | nil => rfl
  | definition hopening hname hbody hclosing _ ih =>
    simp only [List.forall_mem_append, List.forall_mem_cons] at hgenuine
    obtain ⟨⟨hopen, _, _⟩, hclose, hothers⟩ := hgenuine
    rw [List.flatMap_cons, Clause.spelled, ih hothers, ← spelled_of_kind hopen hopening rfl,
      ← spelled_of_kind hclose hclosing rfl]
    simp
  | term hitem _ ih =>
    rw [List.flatMap_cons, Clause.spelled, ih (List.forall_mem_append.mp hgenuine).2,
      List.map_append]

/-- The body of a definition consists of items. -/
theorem Reads.definition_items (h : Reads clauses xs) {head : Lexeme} {body : List Lexeme}
    (hmem : (head, body) ∈ definitionsOf clauses) : IsItems Lexeme.kind body ∧ body ⊆ xs := by
  induction h with
  | nil => cases hmem
  | definition _ _ hbody _ _ ih =>
    rw [definitionsOf, List.filterMap_cons] at hmem
    cases hmem with
    | head => exact ⟨hbody, fun x hx => by simp [hx]⟩
    | tail _ hmem =>
      obtain ⟨hitems, hsub⟩ := ih hmem
      exact ⟨hitems, fun x hx => by simp [hsub hx]⟩
  | term _ _ ih =>
    obtain ⟨hitems, hsub⟩ := ih hmem
    exact ⟨hitems, fun x hx => List.mem_append_right _ (hsub hx)⟩

theorem termWords_term (words : List Lexeme) (rest : List Clause) :
    termWords (.term words :: rest) = words ++ termWords rest :=
  List.flatMap_cons

/-- So do the words of all terms together. -/
theorem Reads.term_items (h : Reads clauses xs) :
    IsItems Lexeme.kind (termWords clauses) ∧ termWords clauses ⊆ xs := by
  induction h with
  | nil => exact ⟨.nil, List.nil_subset _⟩
  | definition _ _ _ _ _ ih => exact ⟨ih.1, fun x hx => by simp [ih.2 hx]⟩
  | @term clauses item rest hitem _ ih =>
    rw [termWords_term]
    refine ⟨.cons hitem ih.1, fun x hx => ?_⟩
    rcases List.mem_append.mp hx with hx | hx
    · exact List.mem_append_left _ hx
    · exact List.mem_append_right _ (ih.2 hx)

end Clause

/-- A text that parses loses no word on the way, each of its definitions and its terms
    together can be assembled, and the programs flatten back to the words. -/
theorem parse_assembles (source : String) (name : Option String) (clauses : List Clause)
    (h : parse source name = .ok clauses) :
    ((scan source).stray = none ∧
      clauses.flatMap Clause.spelled = (scan source).lexemes.map Lexeme.spelled) ∧
    (∀ head body, (head, body) ∈ definitionsOf clauses → Reassembles body) ∧
    Reassembles (termWords clauses) := by
  have hstray := stray_eq_none_of_parse h
  have hreads := (parse_ok_iff hstray).mp h
  have hgenuine : ∀ x ∈ (scan source).lexemes, x.Genuine := fun x hx => genuine_of_mem_scan hx
  refine ⟨⟨hstray, hreads.spelled hgenuine⟩, ?_, ?_⟩
  · intro head body hmem
    obtain ⟨hitems, hsub⟩ := hreads.definition_items hmem
    exact reassembles_of_items hitems fun x hx => hgenuine x (hsub hx)
  · obtain ⟨hitems, hsub⟩ := hreads.term_items
    exact reassembles_of_items hitems fun x hx => hgenuine x (hsub hx)

/-- The empty alternative is the only word that the program of `[ ifgt 'a else fi ] map`
    does not have, whether or not a definition stands before it. -/
theorem parse_assembles_empty_alternative :
    ∃ clauses, parse "( f sto x ) [ ifgt 'a else fi ] map" none = .ok clauses ∧
      ∃ program, assemble ((termWords clauses).map (Lexeme.token none)) (.empty none) = .ok program ∧
        Node.flattenAll program.nodes
          = [.written .blockOpen "[", .written .test "ifgt", .written .symbol "'a",
            .written .testEnd "fi", .written .blockClose "]", .written .combinator "map"] := by
  have hwords : scan "( f sto x ) [ ifgt 'a else fi ] map"
      = ⟨[⟨.definitionStart, "(", 1, 1⟩, ⟨.word, "f", 1, 3⟩, ⟨.store, "sto", 1, 5⟩,
          ⟨.word, "x", 1, 9⟩, ⟨.definitionEnd, ")", 1, 11⟩, ⟨.blockOpen, "[", 1, 13⟩,
          ⟨.test, "ifgt", 1, 15⟩, ⟨.symbol, "'a", 1, 20⟩, ⟨.alternative, "else", 1, 23⟩,
          ⟨.testEnd, "fi", 1, 28⟩, ⟨.blockClose, "]", 1, 31⟩, ⟨.combinator, "map", 1, 33⟩],
        none⟩ := by decide +kernel
  have hparse : parse "( f sto x ) [ ifgt 'a else fi ] map" none
      = .ok [.definition ⟨.word, "f", 1, 3⟩ [⟨.store, "sto", 1, 5⟩, ⟨.word, "x", 1, 9⟩],
          .term [⟨.blockOpen, "[", 1, 13⟩, ⟨.test, "ifgt", 1, 15⟩, ⟨.symbol, "'a", 1, 20⟩,
            ⟨.alternative, "else", 1, 23⟩, ⟨.testEnd, "fi", 1, 28⟩, ⟨.blockClose, "]", 1, 31⟩,
            ⟨.combinator, "map", 1, 33⟩]] := by
    simp only [parse, hwords]
    rfl
  exact ⟨_, hparse, (parse_assembles _ none _ hparse).2.2 none (.empty none)⟩

end StackCalc
