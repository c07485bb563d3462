/-
  StackCalc.Proofs.LostWords

  Which words a program keeps.  The assembly accepts more tokens than the grammar of texts
  does (`Assembly.LooseItems`).  A program flattens to all of the tokens that it was
  assembled from, but for empty alternatives, exactly if these are items of the grammar, in
  which a combinator stands directly behind the bracket that closes its block
  (`assemble_keeps_iff`).  For the one direction the words of every item are found again in
  its node; for the other they are counted, since a program has as many opening brackets as
  combinators, and a node has not more words than the tokens that it was made of.
-/

import StackCalc.Proofs.LooseAssembly

namespace StackCalc

open Grammar Assembly

/-! ## Words as a program can keep them -/

/-- A token with the text in which a program can keep it.  Brackets, directives, `else` and
    `fi` are kept as they are always written, and a symbol without its first character. -/
def Token.standard (x : Token) : Token :=
  { x with text :=
      match x.kind with
      | .symbol => String.ofList (Text.singleQuote :: x.text.toList.drop 1)
      | kind => kind.spelling?.getD x.text }

section

variable {x : Token} {kind : Kind} {text : String}

theorem Token.standard_kind (x : Token) : x.standard.kind = x.kind := rfl

/-- A text that its kind does not prescribe is kept. -/
theorem Token.standard_text (hx : x.kind = kind) (hspelling : kind.spelling? = none)
    (hsymbol : kind ≠ .symbol) : x.standard.text = x.text := by
  subst hx
  unfold standard
  dsimp only
  split
  · exact absurd ‹_› hsymbol
  · rw [hspelling]
    rfl

theorem Token.gist_standard (hx : x.kind = kind) (hspelling : kind.spelling? = some text) :
    x.standard.gist = .written kind text := by
  subst hx
  have htext : x.standard.text = text := by
    unfold standard
    dsimp only
    split
    · rename_i hsymbol
      rw [hsymbol] at hspelling
      cases hspelling
    · rw [hspelling]
      rfl
  have hnumber : x.kind ≠ .number := by
    intro hnumber
    rw [hnumber] at hspelling
    cases hspelling
  rw [Token.gist_of_kind (standard_kind x) hnumber, htext]

end

/-! ## Items keep their words -/

mutual

/-- The words of an item are found again in its node. -/
theorem Makes.flattens : ∀ {xs : List Token} {node : Node}, Makes xs node →
    Flattens (xs.map Token.standard) [node]
  | _, _, .number (x := x) hx hvalue => by
    refine .single (by rw [x.standard_kind, hx]; simp) ?_
    rw [Node.flatten, Token.gist, Gist.of, x.standard_kind, if_pos hx,
      Token.standard_text hx rfl (by simp), hvalue]
  | _, _, .symbol (x := x) hx => by
    refine .single (by rw [x.standard_kind, hx]; simp) ?_
    rw [Node.flatten, Token.gist_of_kind (x.standard_kind.trans hx) (by simp), String.toList_ofList]
    simp only [Token.standard, hx]
  | _, _, .word (x := x) hx => by
    refine .single (by rw [x.standard_kind, hx]; simp) ?_
    rw [Node.flatten, Token.gist_of_kind (x.standard_kind.trans hx) (by simp),
      Token.standard_text hx rfl (by simp)]
  | _, _, @Makes.store x name hx hname => by
    have hdirective : Flattens [x.standard, name.standard] [.store name.standard.text x.settled] :=
      .directive ⟨"sto", true, x.settled⟩ (by rw [x.standard_kind, hx]; simp) hname
        (by rw [Token.gist_standard hx rfl]; rfl)
    rwa [Token.standard_text hname rfl (by simp)] at hdirective
  | _, _, @Makes.fetch x name hx hname => by
    have hdirective : Flattens [x.standard, name.standard] [.fetch name.standard.text x.settled] :=
      .directive ⟨"rcl", false, x.settled⟩ (by rw [x.standard_kind, hx]; simp) hname
        (by rw [Token.gist_standard hx rfl]; rfl)
    rwa [Token.standard_text hname rfl (by simp)] at hdirective
  | _, _, .block hopening hbody hclosing hcombinator => by
    rw [List.map_append, List.map_cons, List.map_cons, List.map_cons, List.map_nil,
      ← Token.standard_text hcombinator rfl (by simp)]
    exact .block (Token.gist_standard hopening rfl) hbody.flattens
      (Token.gist_standard hclosing rfl) hcombinator
  | _, _, .conditional htest hconsequent hending => by
    rw [List.map_append, List.map_cons, List.map_cons, List.map_nil,
      ← Token.standard_text htest rfl (by simp)]
    exact .conditional htest hconsequent.flattens (Token.gist_standard hending rfl)
  | _, _, .twofold htest hconsequent hmiddle halternative hending => by
    rw [List.map_append, List.map_append, List.map_cons, List.map_cons, List.map_cons, List.map_nil,
      ← Token.standard_text htest rfl (by simp)]
    exact .twofold htest hconsequent.flattens (Token.gist_standard hmiddle rfl)
      halternative.flattens (Token.gist_standard hending rfl)

theorem MakeAll.flattens : ∀ {xs : List Token} {nodes : List Node}, MakeAll xs nodes →
    Flattens (xs.map Token.standard) nodes
  | _, _, .nil => .nil
  | _, _, .cons hitem hrest => by
    rw [List.map_append]
    exact hitem.flattens.append hrest.flattens

end

/-! ## Counting words -/

/-- The kind of a kept word. -/
def Gist.kind : Gist → Kind
  | number _ => .number
  | written kind _ => kind

theorem Token.gist_kind (x : Token) : x.gist.kind = x.kind := by
  unfold gist Gist.of
  split
  · rename_i hx
    exact hx.symm
  · rfl

theorem kinds_standard (xs : List Token) :
    (xs.map fun x => x.standard.gist).map Gist.kind = xs.map Token.kind := by
  rw [List.map_map]
  exact List.map_congr_left fun x _ => x.standard.gist_kind

/-- The number of words that are no alternatives. -/
def firmWords (kinds : List Kind) : Nat := kinds.countP (· ≠ .alternative)

@[simp] theorem firmWords_nil : firmWords [] = 0 := rfl

@[simp] theorem firmWords_cons (kind : Kind) (rest : List Kind) :
    firmWords (kind :: rest) = firmWords rest + if kind = .alternative then 0 else 1 := by
  rw [firmWords, List.countP_cons, firmWords]
  split <;> split <;> simp_all

@[simp] theorem firmWords_append (kinds rest : List Kind) :
    firmWords (kinds ++ rest) = firmWords kinds + firmWords rest :=
  List.countP_append

/-- Empty alternatives are the only words that are dropped. -/
theorem countP_dropEmptyElse {p : Kind → Bool} (hp : p .alternative = false) (gists : List Gist) :
    ((dropEmptyElse gists).map Gist.kind).countP p = (gists.map Gist.kind).countP p := by
  induction gists with
  | nil => rfl
  | cons gist rest ih =>
    have hcons : dropEmptyElse (gist :: rest) = gist.before (dropEmptyElse rest) := rfl
    rw [hcons, List.map_cons, List.countP_cons, ← ih]
    unfold Gist.before
    split
    · rename_i heq
      rw [heq]
      simp [Gist.kind, hp]
    · rw [List.map_cons, List.countP_cons]

mutual

/-- A node has as many opening brackets as combinators. -/
theorem Node.count_flatten : ∀ node : Node,
    (node.flatten.map Gist.kind).count .blockOpen = (node.flatten.map Gist.kind).count .combinator
  | .cell (.number x) => by rw [flatten]; rfl
  | .cell (.text s) => by rw [flatten]; rfl
  | .word name place => by rw [flatten]; rfl
  | .block body combinator place => by
    have hbody := count_flattenAll body
    simp only [flatten, List.map_append, List.map_cons, List.map_nil, List.count_append,
      List.count_cons, List.count_nil, Gist.kind, hbody]
    simp
  | .branch test consequent alternative place => by
    have hconsequent := count_flattenAll consequent
    have halternative := count_flattenAll alternative
    rw [flatten]
    split <;> simp [Gist.kind, hconsequent, halternative]
  | .store name place => by rw [flatten]; rfl
  | .fetch name place => by rw [flatten]; rfl

theorem Node.count_flattenAll : ∀ nodes : List Node,
    ((Node.flattenAll nodes).map Gist.kind).count .blockOpen
      = ((Node.flattenAll nodes).map Gist.kind).count .combinator
  | [] => rfl
  | node :: rest => by
    rw [flattenAll, List.map_append, List.count_append, List.count_append, node.count_flatten,
      count_flattenAll rest]

end

/-- What the words of accepted tokens amount to, by their kinds, of which a program keeps some.
    There are no more opening brackets than combinators, and not more words are kept than
    there are, except for one for every combinator without an opening bracket of its own.
    Where nothing is missing, the tokens are of the grammar. -/
structure Amounts (kinds : List Kind) (kept : Nat) (strict : Prop) : Prop where
  opens : kinds.count .blockOpen ≤ kinds.count .combinator
  words : kept + kinds.count .blockOpen ≤ firmWords kinds + kinds.count .combinator
  grammar : kinds.count .blockOpen = kinds.count .combinator → kept = firmWords kinds → strict

namespace Amounts

variable {kinds kinds' : List Kind} {kept kept' : Nat} {strict strict' : Prop}

theorem imp (h : Amounts kinds kept strict) (hkept : kept' = kept) (himp : strict → strict') :
    Amounts kinds kept' strict' := by
  subst hkept
  exact ⟨h.opens, h.words, fun hcount hall => himp (h.grammar hcount hall)⟩

theorem nil : Amounts [] 0 True := ⟨Nat.le_refl _, Nat.le_refl _, fun _ _ => trivial⟩

/-- Nothing is missing in two parts if nothing is missing in either. -/
theorem append (h : Amounts kinds kept strict) (h' : Amounts kinds' kept' strict') :
    Amounts (kinds ++ kinds') (kept + kept') (strict ∧ strict') := by
  obtain ⟨hopens, hwords, hgrammar⟩ := h
  obtain ⟨hopens', hwords', hgrammar'⟩ := h'
  refine ⟨?_, ?_, fun hcount hkept => ⟨hgrammar ?_ ?_, hgrammar' ?_ ?_⟩⟩ <;>
    simp only [List.count_append, firmWords_append] at * <;> omega

/-- A word that is neither an opening bracket nor a combinator. -/
theorem single (kind : Kind) (hopen : kind ≠ .blockOpen) (hcombinator : kind ≠ .combinator) :
    Amounts [kind] (firmWords [kind]) True :=
  ⟨by simp [hopen], by simp [hopen, hcombinator], fun _ _ => trivial⟩

theorem conditional (h : Amounts kinds kept strict) :
    Amounts (.test :: kinds ++ [.testEnd]) (kept + 2) strict := by
  have htest := single .test (by decide) (by decide)
  have hending := single .testEnd (by decide) (by decide)
  refine ((htest.append h).append hending).imp ?_ fun hall => hall.1.2
  show kept + 2 = 1 + kept + 1
  omega

/-- An alternative may have nothing behind it, so it does not count. -/
theorem twofold (h : Amounts kinds kept strict) (h' : Amounts kinds' kept' strict') :
    Amounts (.test :: kinds ++ .alternative :: kinds' ++ [.testEnd]) (kept + kept' + 2)
      (strict ∧ strict') := by
  have htest := single .test (by decide) (by decide)
  have hmiddle := single .alternative (by decide) (by decide)
  have hending := single .testEnd (by decide) (by decide)
  refine (((htest.append h).append (hmiddle.append h')).append hending).imp ?_
    fun hall => ⟨hall.1.1.2, hall.1.2.2⟩
  show kept + kept' + 2 = 1 + kept + (0 + kept') + 1
  omega

/-- A block has a bracket and a combinator of its own, and nothing behind its end. -/
theorem block {body lost : List Kind} (hbody : Amounts body kept strict)
    (hlost : Amounts lost kept' strict') :
    Amounts (.blockOpen :: body ++ .blockClose :: lost ++ [.combinator]) (kept + 3)
      (strict ∧ firmWords lost = 0) := by
  obtain ⟨hopens, hwords, hgrammar⟩ := hbody
  obtain ⟨hopens', hwords', -⟩ := hlost
  refine ⟨?_, ?_, fun hcount hkept => ⟨hgrammar ?_ ?_, ?_⟩⟩ <;>
    simp only [List.count_append, List.count_cons, List.count_nil, firmWords_append,
      firmWords_cons, firmWords_nil, beq_iff_eq, reduceCtorEq, if_true, if_false] at * <;>
    omega

/-- A block that no bracket of its own opens has a combinator too many. -/
theorem unopened {kind : Kind} {body lost : List Kind} (hbody : Amounts body kept strict)
    (hlost : Amounts lost kept' strict') (hopen : kind ≠ .blockOpen)
    (hcombinator : kind ≠ .combinator) :
    Amounts (kind :: body ++ .blockClose :: lost ++ [.combinator]) (kept + 3) False := by
  obtain ⟨hopens, hwords, -⟩ := hbody
  obtain ⟨hopens', hwords', -⟩ := hlost
  refine ⟨?_, ?_, fun hcount _ => ?_⟩ <;>
    simp only [hopen, hcombinator, List.count_append, List.count_cons, List.count_nil,
      firmWords_append, firmWords_cons, firmWords_nil, beq_iff_eq, reduceCtorEq, if_true, if_false] at * <;>
    omega

end Amounts

/-- The words of a block are those of its body and three more. -/
theorem Node.firmWords_block (body : List Node) (combinator : Combinator) (place : Place) :
    firmWords ((Node.block body combinator place).flatten.map Gist.kind)
      = firmWords ((Node.flattenAll body).map Gist.kind) + 3 := by
  simp [flatten, Gist.kind]

/-- A conditional has its branches and two words more, and maybe an alternative. -/
theorem Node.firmWords_branch (test : Test) (consequent alternative : List Node) (place : Place) :
    firmWords ((Node.branch test consequent alternative place).flatten.map Gist.kind)
      = firmWords ((Node.flattenAll consequent).map Gist.kind)
        + firmWords ((Node.flattenAll alternative).map Gist.kind) + 2 := by
  rw [flatten]
  cases alternative with
  | nil => simp [Gist.kind, flattenAll]
  | cons node rest =>
    simp [Gist.kind]
    omega

namespace Assembly

variable {xs : List Token} {node : Node} {nodes : List Node} {inTest : Bool}

/-- Every item has a word that is no alternative. -/
theorem LooseItem.firmWords_pos (h : LooseItem inTest xs node) :
    0 < firmWords (xs.map Token.kind) := by
  cases h with
  | number hx | symbol hx | word hx | store hx | fetch hx => simp [hx]
  | conditional htest => simp [htest]
  | twofold htest => simp [htest]
  | block hopening hbody hclosing =>
    simp only [List.map_append, List.map_cons, firmWords_append, firmWords_cons, hclosing,
      reduceCtorEq, if_false]
    omega

theorem LooseItems.eq_nil (h : LooseItems inTest xs nodes)
    (hwords : firmWords (xs.map Token.kind) = 0) : xs = [] := by
  cases h with
  | nil => rfl
  | cons hitem hrest =>
    have hpos := hitem.firmWords_pos
    rw [List.map_append, firmWords_append] at hwords
    omega

theorem amounts_literal {x : Token} (hx : x.kind = .number ∨ x.kind = .symbol ∨ x.kind = .word) :
    Amounts [x.kind] 1 (IsItem Token.kind [x]) := by
  rcases id hx with h | h | h <;> rw [h] <;>
    exact (Amounts.single _ (by decide) (by decide)).imp rfl fun _ => .literal hx

theorem amounts_directive {x name : Token} (hx : x.kind = .store ∨ x.kind = .fetch)
    (hname : name.kind = .word) :
    Amounts [x.kind, name.kind] 2 (IsItem Token.kind [x, name]) := by
  have hword := Amounts.single .word (by decide) (by decide)
  rcases id hx with h | h <;> rw [h, hname] <;>
    exact ((Amounts.single _ (by decide) (by decide)).append hword).imp rfl
      fun _ => .directive hx hname

mutual

/-- Accepted tokens amount to an item of the grammar if nothing is missing. -/
theorem LooseItem.amounts : ∀ {inTest : Bool} {xs : List Token} {node : Node},
    LooseItem inTest xs node →
      Amounts (xs.map Token.kind) (firmWords (node.flatten.map Gist.kind)) (IsItem Token.kind xs)
  | _, _, _, .number hx _ => by
    rw [Node.flatten]
    exact amounts_literal (.inl hx)
  | _, _, _, .symbol hx => by
    rw [Node.flatten]
    exact amounts_literal (.inr (.inl hx))
  | _, _, _, .word hx => by
    rw [Node.flatten]
    exact amounts_literal (.inr (.inr hx))
  | _, _, _, .store hx hname => by
    rw [Node.flatten]
    exact amounts_directive (.inl hx) hname
  | _, _, _, .fetch hx hname => by
    rw [Node.flatten]
    exact amounts_directive (.inr hx) hname
  | _, _, _, @LooseItem.block _ _ opening _ _ _ _ _ _ hopening hbody hclosing hlost hcombinator => by
    simp only [List.map_append, List.map_cons, List.map_nil, hclosing, hcombinator]
    by_cases hopen : opening.kind = .blockOpen
    · rw [hopen]
      -- If nothing is missing, nothing stands between the closing bracket and the combinator.
      refine (hbody.amounts.block hlost.amounts).imp (Node.firmWords_block _ _ _)
        fun ⟨hitems, hwords⟩ => ?_
      obtain rfl := hlost.eq_nil hwords
      rw [List.append_assoc]
      exact .block hopen hitems hclosing hcombinator
    · have hkind : opening.kind ≠ .combinator := by cases hopening <;> simp [*]
      exact (hbody.amounts.unopened hlost.amounts hopen hkind).imp (Node.firmWords_block _ _ _)
        False.elim
  | _, _, _, .conditional htest hconsequent hending => by
    simp only [List.map_append, List.map_cons, List.map_nil, htest, hending]
    exact hconsequent.amounts.conditional.imp (Node.firmWords_branch _ _ _ _)
      fun hitems => .conditional htest hitems hending
  | _, _, _, .twofold htest hconsequent hmiddle halternative hending => by
    simp only [List.map_append, List.map_cons, List.map_nil, htest, hmiddle, hending]
    exact (hconsequent.amounts.twofold halternative.amounts).imp (Node.firmWords_branch _ _ _ _)
      fun ⟨hitems, hitems'⟩ => .twofold htest hitems hmiddle hitems' hending

theorem LooseItems.amounts : ∀ {inTest : Bool} {xs : List Token} {nodes : List Node},
    LooseItems inTest xs nodes →
      Amounts (xs.map Token.kind) (firmWords ((Node.flattenAll nodes).map Gist.kind))
        (IsItems Token.kind xs)
  | _, _, _, .nil => Amounts.nil.imp rfl fun _ => .nil
  | _, _, _, .cons hitem hrest => by
    rw [Node.flattenAll, List.map_append, List.map_append, firmWords_append]
    exact (hitem.amounts.append hrest.amounts).imp rfl fun ⟨hfirst, hothers⟩ => .cons hfirst hothers

end

/-! ## Numbers that can be read -/

theorem isReadable_of_ne {x : Token} (hx : x.kind ≠ .number) : x.IsReadable :=
  fun hnumber => absurd hnumber hx

theorem Opens.isReadable {opener : Opener} {x : Token} (h : Opens inTest opener x) :
    x.IsReadable := by
  cases h with
  | block hx | blockEnd hx | test hx | alternative hx => exact isReadable_of_ne (by simp [hx])

mutual

/-- All numbers among accepted tokens can be read. -/
theorem LooseItem.isReadable : ∀ {inTest : Bool} {xs : List Token} {node : Node},
    LooseItem inTest xs node → ∀ x ∈ xs, x.IsReadable
  | _, _, _, .number _ hvalue => List.forall_mem_singleton.mpr fun _ => ⟨_, hvalue⟩
  | _, _, _, .symbol hx => List.forall_mem_singleton.mpr (isReadable_of_ne (by simp [hx]))
  | _, _, _, .word hx => List.forall_mem_singleton.mpr (isReadable_of_ne (by simp [hx]))
  | _, _, _, .store hx hname => by
    simpa using And.intro (isReadable_of_ne (by simp [hx])) (isReadable_of_ne (by simp [hname]))
  | _, _, _, .fetch hx hname => by
    simpa using And.intro (isReadable_of_ne (by simp [hx])) (isReadable_of_ne (by simp [hname]))
  | _, _, _, .block hopening hbody hclosing hlost hcombinator => by
    simp only [List.forall_mem_append, List.forall_mem_cons]
    exact ⟨⟨⟨hopening.isReadable, hbody.isReadable⟩, isReadable_of_ne (by simp [hclosing]),
      hlost.isReadable⟩, isReadable_of_ne (by simp [hcombinator]), List.forall_mem_nil _⟩
  | _, _, _, .conditional htest hconsequent hending => by
    simp only [List.forall_mem_append, List.forall_mem_cons]
    exact ⟨⟨isReadable_of_ne (by simp [htest]), hconsequent.isReadable⟩,
      isReadable_of_ne (by simp [hending]), List.forall_mem_nil _⟩
  | _, _, _, .twofold htest hconsequent hmiddle halternative hending => by
    simp only [List.forall_mem_append, List.forall_mem_cons]
    exact ⟨⟨⟨isReadable_of_ne (by simp [htest]), hconsequent.isReadable⟩,
      isReadable_of_ne (by simp [hmiddle]), halternative.isReadable⟩,
      isReadable_of_ne (by simp [hending]), List.forall_mem_nil _⟩

theorem LooseItems.isReadable : ∀ {inTest : Bool} {xs : List Token} {nodes : List Node},
    LooseItems inTest xs nodes → ∀ x ∈ xs, x.IsReadable
  | _, _, _, .nil => List.forall_mem_nil _
  | _, _, _, .cons hitem hrest => List.forall_mem_append.mpr ⟨hitem.isReadable, hrest.isReadable⟩

end

end Assembly

/-! ## Kept and lost words -/

/-- The words of tokens, as far as a program can keep them, without empty alternatives. -/
def keptWords (xs : List Token) : List Gist := dropEmptyElse (xs.map fun x => x.standard.gist)

variable {xs : List Token} {extent : Extent} {program : Program} {nodes : List Node}

/-- A program of items of the grammar keeps all of their words. -/
theorem keeps_of_items (h : LooseItems false xs nodes) (hitems : IsItems Token.kind xs) :
    Node.flattenAll nodes = keptWords xs := by
  obtain ⟨made, hmade⟩ := exists_makeAll_of_readable hitems h.isReadable
  -- The assembly makes one program only.
  have hnodes := (assemble_loose_iff xs (.empty none) nodes).mp h
  rw [assemble_of_assembles hmade.assembles (.empty none)] at hnodes
  obtain rfl : made = nodes := congrArg Program.nodes (Except.ok.inj hnodes)
  have hflattens := hmade.flattens []
  rw [List.map_map, List.append_nil] at hflattens
  exact hflattens.symm

/-- Tokens whose program keeps all of their words are items of the grammar. -/
theorem items_of_keeps (h : LooseItems false xs nodes) (hkept : Node.flattenAll nodes = keptWords xs) :
    IsItems Token.kind xs := by
  have hcount : ∀ p : Kind → Bool, p .alternative = false →
      ((Node.flattenAll nodes).map Gist.kind).countP p = (xs.map Token.kind).countP p := by
    intro p hp
    rw [hkept, keptWords, countP_dropEmptyElse hp, kinds_standard]
  -- All words are kept, so there are as many brackets and combinators as in the program.
  have hopens := hcount (· == .blockOpen) (by decide)
  have hcombinators := hcount (· == .combinator) (by decide)
  have hwords := hcount (· ≠ .alternative) (by decide)
  have hbalance := Node.count_flattenAll nodes
  exact h.amounts.grammar (hopens.symm.trans (hbalance.trans hcombinators)) hwords

/-- What the assembly makes of any tokens, wherever they come from.  It refuses them with a
    failure of the class for texts, or with a fault of the machinery: for a number that cannot
    be read, or a combinator behind a closing bracket in front of which nothing is open.  Or
    it accepts them, and then they are loose items, all of which are accepted.  The program
    keeps all their words, but for empty alternatives, exactly if they are items of the
    grammar: every combinator stands directly behind a closing bracket, and what that closes
    was opened by an opening bracket. -/
theorem assemble_keeps_iff (xs : List Token) (extent : Extent) :
    match assemble xs extent with
    | .error error => Refuses xs error ∧ ∀ nodes, ¬LooseItems false xs nodes
    | .ok program =>
      (∀ nodes, LooseItems false xs nodes ↔ nodes = program.nodes)
        ∧ (Node.flattenAll program.nodes = keptWords xs ↔ IsItems Token.kind xs) := by
  have hreads := assemble_reads xs extent
  cases hassemble : assemble xs extent with
  | error error =>
    rw [hassemble] at hreads
    refine ⟨hreads, fun nodes hloose => ?_⟩
    rw [(assemble_loose_iff xs extent nodes).mp hloose] at hassemble
    cases hassemble
  | ok program =>
    rw [hassemble] at hreads
    refine ⟨fun nodes => ⟨fun hloose => ?_, ?_⟩, items_of_keeps hreads, keeps_of_items hreads⟩
    · rw [(assemble_loose_iff xs extent nodes).mp hloose] at hassemble
      exact congrArg Program.nodes (Except.ok.inj hassemble)
    · rintro rfl
      exact hreads

/-- A number between the closing bracket of a block and its combinator. -/
def strayNumber : List Token :=
  [⟨.blockOpen, "[", some (3, 4), ⟨.named "raw", none, none, some (1, 2)⟩⟩,
    ⟨.blockClose, "]", some (4, 5), ⟨.named "raw", none, none, some (2, 3)⟩⟩,
    ⟨.number, "1", some (5, 6), ⟨.named "raw", none, none, some (3, 4)⟩⟩,
    ⟨.combinator, "map", some (6, 7), ⟨.named "raw", none, none, some (4, 5)⟩⟩]

/-- Words can be lost: the number is accepted, and the program is the block without it. -/
theorem assemble_loses_words :
    ¬∀ (xs : List Token) (extent : Extent),
      (∃ failure, assemble xs extent = .error (.failure failure) ∧ failure.cause.category = .parse)
        ∨ ∃ program, assemble xs extent = .ok program
          ∧ Node.flattenAll program.nodes = keptWords xs := by
  intro h
  obtain ⟨numeral, -, hread⟩ := Double.read?_of_isNumeral (s := "1".toList) (by decide)
  have hloose : LooseItems false strayNumber
      [.block [] .map ⟨.named "raw", some 3, some 4, some (1, 2)⟩] :=
    .cons (.block (.block rfl) .nil rfl (.cons (.number rfl hread) .nil) rfl) .nil
  obtain ⟨failure, hfailure, -⟩ | ⟨program, hprogram, hkept⟩ := h strayNumber ⟨some "raw", 5, 5⟩
  · rw [(assemble_loose_iff ..).mp hloose] at hfailure
    cases hfailure
  · rw [(assemble_loose_iff ..).mp hloose] at hprogram
    cases hprogram
    -- Three of the four words are left.
    have hlength := congrArg List.length hkept
    revert hlength
    decide

end StackCalc
