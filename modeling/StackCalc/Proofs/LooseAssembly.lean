/-
  StackCalc.Proofs.LooseAssembly

  The assembly of tokens that no text was read into.  It checks less than the grammar of
  texts asks for: a block may be opened by any word that opens something, and items may
  stand between its closing bracket and its combinator, where they are lost.  `LooseItems`
  says which tokens are accepted and what they make, and `assemble_loose_iff` that the
  assembly accepts exactly these.  A program flattens to all of its tokens, but for empty
  alternatives, exactly if the tokens are those of items of the grammar, in which nothing
  stands between a bracket that closes a block and the combinator; all other tokens are
  refused, or words of theirs are lost (`assemble_keeps_iff`).
-/

import StackCalc.Proofs.PlacedNodes

namespace StackCalc

open Grammar

namespace Assembly

variable {x name : Token} {xs piece : List Token}
  {node : Node} {nodes output : List Node} {pending : List Pending} {extent : Extent}
  {opener : Opener} {inTest : Bool} {state : State} {error : Error}

/-! ## What is accepted -/

/-- A word that opens something; an alternative does so directly inside of a test only. -/
inductive Opens (inTest : Bool) : Opener → Token → Prop
  | block {x : Token} (hx : x.kind = .blockOpen) : Opens inTest .block x
  | blockEnd {x : Token} (hx : x.kind = .blockClose) : Opens inTest .blockEnd x
  | test {x : Token} (hx : x.kind = .test) : Opens inTest .test x
  | alternative {x : Token} (hx : x.kind = .alternative) (h : inTest = true) :
      Opens inTest .alternative x

mutual

/-- The tokens that are accepted for a node, directly inside of a test or not.  The items
    between the closing bracket of a block and its combinator leave no trace. -/
inductive LooseItem : Bool → List Token → Node → Prop
  | number {inTest : Bool} {x : Token} {value : Float} (hx : x.kind = .number)
      (hvalue : Double.read? x.text.toList = some value) :
      LooseItem inTest [x] (.cell (.number value))
  | symbol {inTest : Bool} {x : Token} (hx : x.kind = .symbol) :
      LooseItem inTest [x] (.cell (.text (String.ofList (x.text.toList.drop 1))))
  | word {inTest : Bool} {x : Token} (hx : x.kind = .word) :
      LooseItem inTest [x] (.word x.text x.settled)
  | store {inTest : Bool} {x name : Token} (hx : x.kind = .store) (hname : name.kind = .word) :
      LooseItem inTest [x, name] (.store name.text x.settled)
  | fetch {inTest : Bool} {x name : Token} (hx : x.kind = .fetch) (hname : name.kind = .word) :
      LooseItem inTest [x, name] (.fetch name.text x.settled)
  | block {inTest : Bool} {opener : Opener} {opening closing combinator : Token}
      {body lost : List Token} {nodes dropped : List Node} (hopening : Opens inTest opener opening)
      (hbody : LooseItems (opener = .test) body nodes) (hclosing : closing.kind = .blockClose)
      (hlost : LooseItems false lost dropped) (hcombinator : combinator.kind = .combinator) :
      LooseItem inTest (opening :: body ++ closing :: lost ++ [combinator])
        (.block nodes (.ofKeyword combinator.text) opening.settled)
  | conditional {inTest : Bool} {test ending : Token} {inner : List Token} {consequent : List Node}
      (htest : test.kind = .test) (hconsequent : LooseItems true inner consequent)
      (hending : ending.kind = .testEnd) :
      LooseItem inTest (test :: inner ++ [ending])
        (.branch (.ofKeyword test.text) consequent [] test.settled)
  | twofold {inTest : Bool} {test middle ending : Token} {inner inner' : List Token}
      {consequent alternative : List Node} (htest : test.kind = .test)
      (hconsequent : LooseItems true inner consequent) (hmiddle : middle.kind = .alternative)
      (halternative : LooseItems false inner' alternative) (hending : ending.kind = .testEnd) :
      LooseItem inTest (test :: inner ++ middle :: inner' ++ [ending])
        (.branch (.ofKeyword test.text) consequent alternative test.settled)

/-- The tokens that are accepted for a list of nodes. -/
inductive LooseItems : Bool → List Token → List Node → Prop
  | nil {inTest : Bool} : LooseItems inTest [] []
  | cons {inTest : Bool} {item rest : List Token} {node : Node} {nodes : List Node}
      (hitem : LooseItem inTest item node) (hrest : LooseItems inTest rest nodes) :
      LooseItems inTest (item ++ rest) (node :: nodes)

end

theorem LooseItems.concat : ∀ {inTest : Bool} {xs : List Token} {nodes : List Node},
    LooseItems inTest xs nodes → LooseItem inTest piece node →
      LooseItems inTest (xs ++ piece) (nodes ++ [node])
  | _, _, _, .nil, hitem => by
    have hone := LooseItems.cons hitem .nil
    rwa [List.append_nil] at hone
  | _, _, _, .cons hfirst hrest, hitem => by
    rw [List.append_assoc]
    exact .cons hfirst (hrest.concat hitem)

/-! ## Refused tokens -/

/-- The ways in which tokens are refused: with a failure of the class for texts, or with a
    fault of the machinery, either of a number that cannot be read or of a combinator behind
    a closing bracket in front of which nothing is open. -/
inductive Refuses (xs : List Token) : Error → Prop
  | parse {failure : Failure} (h : failure.cause.category = .parse) : Refuses xs (.failure failure)
  | unreadable {x : Token} (hmem : x ∈ xs) (hx : x.kind = .number)
      (hread : Double.read? x.text.toList = none) : Refuses xs (.fault (.unreadableNumber x.text))
  | unopened {before lost rest : List Token} {closing combinator : Token}
      {nodes dropped : List Node} (hbefore : LooseItems false before nodes)
      (hclosing : closing.kind = .blockClose) (hlost : LooseItems false lost dropped)
      (hcombinator : combinator.kind = .combinator)
      (hxs : xs = before ++ closing :: lost ++ combinator :: rest) :
      Refuses xs (.fault .unopenedBlock)

theorem Refuses.append (h : Refuses xs error) (rest : List Token) : Refuses (xs ++ rest) error := by
  cases h with
  | parse h => exact .parse h
  | unreadable hmem hx hread => exact .unreadable (List.mem_append_left _ hmem) hx hread
  | @unopened before lost behind closing combinator nodes dropped hbefore hclosing hlost
      hcombinator hxs =>
    have hmore : xs ++ rest = before ++ closing :: lost ++ combinator :: (behind ++ rest) := by
      rw [hxs, List.append_assoc, List.cons_append]
    exact .unopened hbefore hclosing hlost hcombinator hmore

/-- The fault of a token is of the class for texts, unless more text could mend it. -/
theorem refuses_faultAt {problem : SourceProblem} (h : problem.isIncomplete = false) (x : Token) :
    Refuses xs (faultAt problem x) :=
  .parse (by simp [Failure.ofSource, Cause.category, h])

/-! ## The tokens behind a state -/

/-- A test is the innermost open construct. -/
def insideTest (pending : List Pending) : Bool := pending.head?.any (·.opener = .test)

/-- The tokens that led to the nodes and the open constructs of a state: an accepted list for
    the nodes outside of all constructs, and for every construct the word that opened it and
    an accepted list behind it. -/
inductive Linked : List Token → List Node → List Pending → Prop
  | bottom {xs : List Token} {nodes : List Node} (h : LooseItems false xs nodes) :
      Linked xs nodes.reverse []
  | opened {before inside : List Token} {x : Token} {opener : Opener} {output nodes : List Node}
      {pending : List Pending} (hbefore : Linked before output pending)
      (hopens : Opens (insideTest pending) opener x)
      (hinside : LooseItems (opener = .test) inside nodes) :
      Linked (before ++ x :: inside) nodes.reverse
        (⟨output, opener, x.text, x.settled⟩ :: pending)

namespace Linked

theorem start : Linked [] [] [] := .bottom .nil

/-- One more item in the innermost construct. -/
theorem push (h : Linked xs output pending) (hitem : LooseItem (insideTest pending) piece node) :
    Linked (xs ++ piece) (node :: output) pending := by
  cases h with
  | @bottom _ nodes h =>
    have hmore := Linked.bottom (h.concat hitem)
    rwa [List.reverse_concat] at hmore
  | @opened before inside x opener output nodes pending hbefore hopens hinside =>
    have hmore := Linked.opened hbefore hopens (hinside.concat hitem)
    rwa [List.reverse_concat, ← List.cons_append, ← List.append_assoc] at hmore

/-- One more open construct. -/
theorem openWith (h : Linked xs output pending) (hopens : Opens (insideTest pending) opener x) :
    Linked (xs ++ [x]) [] (⟨output, opener, x.text, x.settled⟩ :: pending) :=
  .opened h hopens .nil

end Linked

/-! ## Steps -/

/-- A directive that waits for the name behind a token. -/
def Token.Directs (x : Token) (directive : Directive) : Prop :=
  directive.place = x.settled
    ∧ (x.kind = .store ∧ directive.stores = true ∨ x.kind = .fetch ∧ directive.stores = false)

theorem Token.Directs.item {directive : Directive} (h : Token.Directs x directive)
    (hname : name.kind = .word) : LooseItem inTest [x, name] (directive.node name.text) := by
  obtain ⟨hplace, ⟨hx, hstores⟩ | ⟨hx, hstores⟩⟩ := h
  · rw [Directive.node, hstores, hplace]
    exact .store hx hname
  · rw [Directive.node, hstores, hplace]
    exact .fetch hx hname

/-- The tokens that led to a state. -/
def State.Follows (xs : List Token) (state : State) : Prop :=
  match state.directive with
  | none => Linked xs state.output state.pending
  | some directive => ∃ before x, xs = before ++ [x] ∧ Token.Directs x directive
      ∧ Linked before state.output state.pending

theorem State.Follows.of_directive {directive : Directive} (h : Linked xs output pending)
    (hx : Token.Directs x directive) :
    State.Follows (xs ++ [x]) ⟨output, pending, some directive, extent⟩ :=
  ⟨xs, x, rfl, hx, h⟩

/-- What follows from one step of the assembly: it goes on, or the tokens are refused. -/
def Reaches (xs : List Token) : Except Error State → Prop
  | .ok next => next.Follows xs
  | .error error => Refuses xs error

/-- A combinator takes the body behind the opening word, and what stands behind the closing
    bracket is lost. -/
theorem Linked.closeBlock (h : Linked xs output pending) (hx : x.kind = .combinator) :
    Reaches (xs ++ [x]) (State.closeBlock ⟨output, pending, none, extent⟩ x) := by
  unfold State.closeBlock
  split
  · -- Some word opened the block; nothing asks which.
    rename_i hpending
    obtain rfl : pending = _ := hpending
    cases h with
    | opened hclosed hcloses hlost =>
      cases hcloses with
      | blockEnd hclosing =>
        cases hclosed with
        | opened hbefore hopens hbody =>
          have hblock := hbefore.push (.block hopens hbody hclosing hlost hx)
          simpa [Reaches, State.Follows] using hblock
  · -- Nothing is open in front of the closing bracket.
    rename_i hpending
    obtain rfl : pending = _ := hpending
    cases h with
    | opened hclosed hcloses hlost =>
      cases hcloses with
      | blockEnd hclosing =>
        cases hclosed with
        | bottom hbefore => exact .unopened hbefore hclosing hlost hx rfl
  · exact refuses_faultAt rfl x

/-- The end of a conditional takes one branch or two. -/
theorem Linked.closeTest (h : Linked xs output pending) (hx : x.kind = .testEnd) :
    Reaches (xs ++ [x]) (State.closeTest ⟨output, pending, none, extent⟩ x) := by
  unfold State.closeTest
  split
  · -- An alternative is open, and the test below it.
    rename_i hpending
    obtain rfl : pending = _ := hpending
    cases h with
    | opened hclosed hmiddle halternative =>
      cases hmiddle with
      | alternative hmiddle =>
        cases hclosed with
        | opened hbefore hopens hconsequent =>
          cases hopens with
          | test htest =>
            have hbranch := hbefore.push (.twofold htest hconsequent hmiddle halternative hx)
            simpa [Reaches, State.Follows] using hbranch
  · -- The test has one branch.
    rename_i hpending
    obtain rfl : pending = _ := hpending
    cases h with
    | opened hbefore hopens hconsequent =>
      cases hopens with
      | test htest =>
        have hbranch := hbefore.push (.conditional htest hconsequent hx)
        simpa [Reaches, State.Follows] using hbranch
  · exact refuses_faultAt rfl x

/-- One more token where no name is awaited. -/
theorem Linked.item (h : Linked xs output pending) (x : Token) :
    Reaches (xs ++ [x]) (State.item ⟨output, pending, none, extent⟩ x) := by
  have hmem : x ∈ xs ++ [x] := List.mem_append_right _ (List.mem_singleton_self x)
  have hpush : ∀ {node}, LooseItem (insideTest pending) [x] node →
      Reaches (xs ++ [x]) (.ok (State.push ⟨output, pending, none, extent⟩ node)) :=
    fun hitem => h.push hitem
  have hopen : ∀ {opener}, Opens (insideTest pending) opener x →
      Reaches (xs ++ [x]) (.ok (State.openWith ⟨output, pending, none, extent⟩ opener x)) :=
    fun hopens => h.openWith hopens
  unfold State.item
  split
  case h_1 hx =>
    split
    · rename_i value hread
      exact hpush (.number hx hread)
    · rename_i hread
      exact .unreadable hmem hx hread
  case h_2 hx => exact hpush (.symbol hx)
  case h_3 hx => exact hpush (.word hx)
  case h_4 hx => exact .of_directive h ⟨rfl, .inl ⟨hx, rfl⟩⟩
  case h_5 hx => exact .of_directive h ⟨rfl, .inr ⟨hx, rfl⟩⟩
  case h_6 hx => exact hopen (.block hx)
  case h_7 hx => exact hopen (.test hx)
  case h_8 hx => exact hopen (.blockEnd hx)
  case h_9 hx =>
    split
    · rename_i before text place rest hpending
      refine hopen (.alternative hx ?_)
      obtain rfl : pending = _ := hpending
      rfl
    · exact refuses_faultAt rfl x
  case h_10 hx => exact h.closeBlock hx
  case h_11 hx => exact h.closeTest hx
  case h_12 => exact refuses_faultAt rfl x

theorem State.Follows.step (h : state.Follows xs) (x : Token) :
    Reaches (xs ++ [x]) (state.step x) := by
  obtain ⟨output, pending, directive, extent⟩ := state
  cases directive with
  | none =>
    rw [step_item]
    exact Linked.item h x
  | some directive =>
    obtain ⟨before, y, rfl, hy, hbefore⟩ := h
    by_cases hx : x.kind = .word
    · rw [step_name hx, List.append_assoc]
      exact hbefore.push (hy.item hx)
    · have hstep : State.step ⟨output, pending, some directive, extent⟩ x
          = .error (faultAt (.variableExpected directive.keyword x.text) x) := by
        unfold State.step
        cases x.lines <;> simp [hx]
      rw [hstep]
      exact refuses_faultAt rfl x

/-- The assembly of tokens goes on from state to state, or the tokens are refused. -/
theorem State.Follows.foldlM (h : state.Follows xs) (rest : List Token) :
    Reaches (xs ++ rest) (rest.foldlM State.step state) := by
  induction rest generalizing xs state with
  | nil =>
    rw [List.append_nil]
    exact h
  | cons x rest ih =>
    have hstep := h.step x
    rw [List.append_cons, List.foldlM_cons]
    match hnext : state.step x with
    | .error error =>
      rw [hnext] at hstep
      exact Refuses.append hstep rest
    | .ok next =>
      rw [hnext] at hstep
      exact ih hstep

/-- Tokens are refused, or they are accepted and make the nodes of their program. -/
theorem assemble_reads (xs : List Token) (extent : Extent) :
    match assemble xs extent with
    | .error error => Refuses xs error
    | .ok program => LooseItems false xs program.nodes := by
  have hstart : (State.start extent).Follows [] := Linked.start
  have hfold := hstart.foldlM xs
  rw [List.nil_append] at hfold
  rw [assemble]
  cases hstate : xs.foldlM State.step (State.start extent) with
  | error error =>
    rw [hstate] at hfold
    exact hfold
  | ok state =>
    rw [hstate] at hfold
    obtain ⟨output, pending, directive, extent⟩ := state
    cases pending with
    | cons opened rest => exact .parse rfl
    | nil =>
      cases directive with
      | some directive => exact .parse rfl
      | none =>
        cases hfold with
        | @bottom _ nodes h =>
          show LooseItems false xs nodes.reverse.reverse
          rwa [List.reverse_reverse]

/-! ## All accepted tokens are assembled -/

/-- The assembly gets over some tokens, directly inside of a test or not, adds nodes for them
    to the innermost construct, and leaves alone what is open around it. -/
def AssemblesIn (inTest : Bool) (xs : List Token) (nodes : List Node) : Prop :=
  ∀ output pending extent rest, insideTest pending = inTest →
    (xs ++ rest).foldlM State.step ⟨output, pending, none, extent⟩
      = rest.foldlM State.step
          ⟨nodes.reverse ++ output, pending, none, xs.foldl widened extent⟩

theorem Assembles.within (h : Assembles xs nodes) : AssemblesIn inTest xs nodes :=
  fun output pending extent rest _ => h output pending extent rest

theorem AssemblesIn.append {ys : List Token} {more : List Node} (h : AssemblesIn inTest xs nodes)
    (h' : AssemblesIn inTest ys more) : AssemblesIn inTest (xs ++ ys) (nodes ++ more) := by
  intro output pending extent rest hinside
  rw [List.append_assoc, h _ _ _ _ hinside, h' _ _ _ _ hinside, List.reverse_append,
    List.append_assoc, List.foldl_append]

theorem item_of_opens (h : Opens (insideTest pending) opener x) :
    State.item ⟨output, pending, none, extent⟩ x
      = .ok ⟨[], ⟨output, opener, x.text, x.settled⟩ :: pending, none, extent⟩ := by
  cases h with
  | block hx | blockEnd hx | test hx => exact item_opens (congrArg Opener.of? hx)
  | alternative hx hinside =>
    match pending with
    | [] => cases hinside
    | ⟨before, opener, text, place⟩ :: rest =>
      obtain rfl : opener = .test := of_decide_eq_true hinside
      exact item_alternative hx

/-- A combinator takes the body, and drops what stands behind the closing bracket. -/
theorem AssemblesIn.block {opening closing combinator : Token} {body lost : List Token}
    {dropped : List Node} (hopening : Opens inTest opener opening)
    (hbody : AssemblesIn (opener = .test) body nodes) (hclosing : closing.kind = .blockClose)
    (hlost : AssemblesIn false lost dropped) (hcombinator : combinator.kind = .combinator) :
    AssemblesIn inTest (opening :: body ++ closing :: lost ++ [combinator])
      [.block nodes (.ofKeyword combinator.text) opening.settled] := by
  rintro output pending extent rest rfl
  rw [List.append_assoc, List.append_assoc, List.cons_append,
    foldlM_of_item (item_of_opens hopening), hbody _ _ _ _ rfl, List.append_nil, List.cons_append,
    foldlM_of_item (item_of_opens (.blockEnd hclosing)), hlost _ _ _ _ rfl, List.append_nil,
    List.singleton_append, foldlM_of_item (item_combinator hcombinator), List.foldl_append,
    List.foldl_append]
  rfl

theorem AssemblesIn.conditional {test ending : Token} {consequent : List Token}
    (htest : test.kind = .test) (hconsequent : AssemblesIn true consequent nodes)
    (hending : ending.kind = .testEnd) :
    AssemblesIn inTest (test :: consequent ++ [ending])
      [.branch (.ofKeyword test.text) nodes [] test.settled] := by
  intro output pending extent rest hinside
  rw [List.append_assoc, List.cons_append, foldlM_of_item (item_of_opens (.test htest)),
    hconsequent _ _ _ _ rfl, List.append_nil, List.singleton_append,
    foldlM_of_item (item_testEnd hending), List.foldl_append]
  rfl

theorem AssemblesIn.twofold {test middle ending : Token} {consequent alternative : List Token}
    {more : List Node} (htest : test.kind = .test) (hconsequent : AssemblesIn true consequent nodes)
    (hmiddle : middle.kind = .alternative) (halternative : AssemblesIn false alternative more)
    (hending : ending.kind = .testEnd) :
    AssemblesIn inTest (test :: consequent ++ middle :: alternative ++ [ending])
      [.branch (.ofKeyword test.text) nodes more test.settled] := by
  intro output pending extent rest hinside
  rw [List.append_assoc, List.append_assoc, List.cons_append,
    foldlM_of_item (item_of_opens (.test htest)), hconsequent _ _ _ _ rfl, List.append_nil,
    List.cons_append, foldlM_of_item (item_alternative hmiddle), halternative _ _ _ _ rfl,
    List.append_nil, List.singleton_append, foldlM_of_item (item_testEnd_alternative hending),
    List.foldl_append, List.foldl_append]
  rfl

mutual

/-- The assembly makes the node of an accepted item. -/
theorem LooseItem.assembles : ∀ {inTest : Bool} {xs : List Token} {node : Node},
    LooseItem inTest xs node → AssemblesIn inTest xs [node]
  | _, _, _, .number hx hvalue => (Makes.number hx hvalue).assembles.within
  | _, _, _, .symbol hx => (Makes.symbol hx).assembles.within
  | _, _, _, .word hx => (Makes.word hx).assembles.within
  | _, _, _, .store hx hname => (Makes.store hx hname).assembles.within
  | _, _, _, .fetch hx hname => (Makes.fetch hx hname).assembles.within
  | _, _, _, .block hopening hbody hclosing hlost hcombinator =>
    .block hopening hbody.assembles hclosing hlost.assembles hcombinator
  | _, _, _, .conditional htest hconsequent hending =>
    .conditional htest hconsequent.assembles hending
  | _, _, _, .twofold htest hconsequent hmiddle halternative hending =>
    .twofold htest hconsequent.assembles hmiddle halternative.assembles hending

theorem LooseItems.assembles : ∀ {inTest : Bool} {xs : List Token} {nodes : List Node},
    LooseItems inTest xs nodes → AssemblesIn inTest xs nodes
  | _, _, _, .nil => Assembles.nil.within
  | _, _, _, .cons hitem hrest => hitem.assembles.append hrest.assembles

end

/-- The assembly accepts exactly these tokens, and makes these nodes of them. -/
theorem assemble_loose_iff (xs : List Token) (extent : Extent) (nodes : List Node) :
    LooseItems false xs nodes ↔ assemble xs extent = .ok ⟨nodes, xs.foldl widened extent⟩ := by
  constructor
  · intro h
    have hrun := h.assembles [] [] extent [] rfl
    rw [List.append_nil, List.append_nil] at hrun
    rw [assemble, State.start, hrun]
    show Except.ok (Program.mk nodes.reverse.reverse _) = _
    rw [List.reverse_reverse]
  · intro h
    have hreads := assemble_reads xs extent
    rw [h] at hreads
    exact hreads

end Assembly
end StackCalc
