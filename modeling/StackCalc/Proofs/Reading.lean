/-
  StackCalc.Proofs.Reading

  What one word does to the reader of texts (`Reader.Step`), and how the reader gets
  through what the grammar allows: over an item, over the items inside a construct, and
  over a whole text, which leaves the clauses that the grammar reads off it (`Reads.run`).
-/

import StackCalc.Proofs.Grammar

namespace StackCalc
namespace Clause

open Grammar

/-! ## Steps of the reader -/

namespace Reader

/-- All that one word can do to a reader. -/
inductive Step : Reader → Lexeme → Reader → Prop
  | literal {division opens words clauses} {x : Lexeme}
      (hx : x.kind = .number ∨ x.kind = .symbol ∨ x.kind = .word) :
      Step ⟨division, opens, .item, words, clauses⟩ x
        (endTerm ⟨division, opens, .item, x :: words, clauses⟩)
  | directive {division opens words clauses} {x : Lexeme}
      (hx : x.kind = .store ∨ x.kind = .fetch) :
      Step ⟨division, opens, .item, words, clauses⟩ x
        ⟨division, opens, .name, x :: words, clauses⟩
  | name {division opens words clauses} {x : Lexeme} (hdivision : division ≠ .opening)
      (hx : x.kind = .word) :
      Step ⟨division, opens, .name, words, clauses⟩ x
        (endTerm ⟨division, opens, .item, x :: words, clauses⟩)
  | blockOpen {division opens words clauses} {x : Lexeme} (hx : x.kind = .blockOpen) :
      Step ⟨division, opens, .item, words, clauses⟩ x
        ⟨division, .block :: opens, .item, x :: words, clauses⟩
  | blockClose {division opens words clauses} {x : Lexeme} (hx : x.kind = .blockClose) :
      Step ⟨division, .block :: opens, .item, words, clauses⟩ x
        ⟨division, opens, .combinator, x :: words, clauses⟩
  | combinator {division opens words clauses} {x : Lexeme} (hx : x.kind = .combinator) :
      Step ⟨division, opens, .combinator, words, clauses⟩ x
        (endTerm ⟨division, opens, .item, x :: words, clauses⟩)
  | test {division opens words clauses} {x : Lexeme} (hx : x.kind = .test) :
      Step ⟨division, opens, .item, words, clauses⟩ x
        ⟨division, .consequent :: opens, .item, x :: words, clauses⟩
  | alternative {division opens words clauses} {x : Lexeme} (hx : x.kind = .alternative) :
      Step ⟨division, .consequent :: opens, .item, words, clauses⟩ x
        ⟨division, .alternative :: opens, .item, x :: words, clauses⟩
  | testEnd {division construct opens words clauses} {x : Lexeme} (hconstruct : construct ≠ .block)
      (hx : x.kind = .testEnd) :
      Step ⟨division, construct :: opens, .item, words, clauses⟩ x
        (endTerm ⟨division, opens, .item, x :: words, clauses⟩)
  | definitionStart {words clauses} {x : Lexeme} (hx : x.kind = .definitionStart) :
      Step ⟨.terms, [], .item, words, clauses⟩ x ⟨.opening, [], .name, words, clauses⟩
  | definitionName {opens words clauses} {x : Lexeme} (hx : x.kind = .word) :
      Step ⟨.opening, opens, .name, words, clauses⟩ x ⟨.body x, opens, .item, words, clauses⟩
  | definitionEnd {name words clauses} {x : Lexeme} (hx : x.kind = .definitionEnd) :
      Step ⟨.body name, [], .item, words, clauses⟩ x
        ⟨.terms, [], .item, [], .definition name words.reverse :: clauses⟩

end Reader

variable {division : Section} {opens : List Construct} {awaited : Awaited}
  {words xs rest : List Lexeme} {clauses : List Clause} {x : Lexeme} {reader next : Reader}

namespace Reader

@[simp] theorem endTerm_division : reader.endTerm.division = reader.division := by
  unfold endTerm
  split <;> rfl

@[simp] theorem endTerm_opens : reader.endTerm.opens = reader.opens := by
  unfold endTerm
  split <;> rfl

@[simp] theorem endTerm_awaited : reader.endTerm.awaited = reader.awaited := by
  unfold endTerm
  split <;> rfl

/-- Between clauses nothing is open, so a complete item is a term. -/
theorem endTerm_between :
    endTerm ⟨.terms, [], .item, words, clauses⟩
      = ⟨.terms, [], .item, [], .term words.reverse :: clauses⟩ := rfl

/-- An item is no term by itself inside a definition or inside another item. -/
theorem endTerm_inside (h : division = .terms → opens ≠ []) :
    endTerm ⟨division, opens, awaited, words, clauses⟩
      = ⟨division, opens, awaited, words, clauses⟩ := by
  cases opens with
  | nil => simp [endTerm, show division ≠ .terms from fun hterms => h hterms rfl]
  | cons construct outer => simp [endTerm, isSettled]

/-- A term does not end while a certain word is awaited. -/
theorem endTerm_awaiting (h : awaited ≠ .item) :
    endTerm ⟨division, opens, awaited, words, clauses⟩
      = ⟨division, opens, awaited, words, clauses⟩ := by
  simp [endTerm, isSettled, h]

theorem Step.step? (h : Step reader x next) : reader.step? x = some next := by
  cases h with
  | literal hx => rcases hx with hx | hx | hx <;> simp [Reader.step?, stepItem?, take, hx]
  | directive hx =>
    rcases hx with hx | hx <;> simp [Reader.step?, stepItem?, take, hx, endTerm_awaiting]
  | blockOpen hx => simp [Reader.step?, stepItem?, take, hx, endTerm_inside]
  | blockClose hx => simp [Reader.step?, stepItem?, take, hx, endTerm_awaiting]
  | combinator hx => simp [Reader.step?, take, hx]
  | test hx => simp [Reader.step?, stepItem?, take, hx, endTerm_inside]
  | alternative hx => simp [Reader.step?, stepItem?, take, hx, endTerm_inside]
  | @testEnd _ construct _ _ _ _ hconstruct hx =>
    cases construct with
    | block => exact absurd rfl hconstruct
    | consequent => simp [Reader.step?, stepItem?, take, hx]
    | alternative => simp [Reader.step?, stepItem?, take, hx]
  | name hdivision hx => simp [Reader.step?, take, hx, hdivision]
  | definitionStart hx => simp [Reader.step?, stepItem?, hx]
  | definitionName hx => simp [Reader.step?, hx]
  | definitionEnd hx => simp [Reader.step?, stepItem?, hx]

/-- What a reader does where an item may start is one of the steps. -/
theorem Step.of_stepItem? (h : stepItem? ⟨division, opens, .item, words, clauses⟩ x = some next) :
    Step ⟨division, opens, .item, words, clauses⟩ x next := by
  simp only [stepItem?] at h
  split at h
  case h_1 hx =>
    obtain rfl := Option.some.inj h
    exact .literal (.inl hx)
  case h_2 hx =>
    obtain rfl := Option.some.inj h
    exact .literal (.inr (.inl hx))
  case h_3 hx =>
    obtain rfl := Option.some.inj h
    exact .literal (.inr (.inr hx))
  case h_4 hx =>
    rw [take, endTerm_awaiting (by simp)] at h
    obtain rfl := Option.some.inj h
    exact .directive (.inl hx)
  case h_5 hx =>
    rw [take, endTerm_awaiting (by simp)] at h
    obtain rfl := Option.some.inj h
    exact .directive (.inr hx)
  case h_6 hx =>
    rw [take, endTerm_inside (by simp)] at h
    obtain rfl := Option.some.inj h
    exact .blockOpen hx
  case h_7 hx =>
    rw [take, endTerm_awaiting (by simp)] at h
    obtain rfl := Option.some.inj h
    exact .blockClose hx
  case h_8 hx =>
    rw [take, endTerm_inside (by simp)] at h
    obtain rfl := Option.some.inj h
    exact .test hx
  case h_9 hx =>
    rw [take, endTerm_inside (by simp)] at h
    obtain rfl := Option.some.inj h
    exact .alternative hx
  case h_10 hx =>
    obtain rfl := Option.some.inj h
    exact .testEnd (by simp) hx
  case h_11 hx =>
    obtain rfl := Option.some.inj h
    exact .testEnd (by simp) hx
  case h_12 hx =>
    split at h
    · rename_i hdivision
      subst hdivision
      obtain rfl := Option.some.inj h
      exact .definitionStart hx
    · cases h
  case h_13 hx =>
    split at h
    · obtain rfl := Option.some.inj h
      exact .definitionEnd hx
    · cases h
  case h_14 => cases h

theorem Step.of_step? (h : reader.step? x = some next) : Step reader x next := by
  obtain ⟨division, opens, awaited, words, clauses⟩ := reader
  cases awaited with
  | item => exact .of_stepItem? h
  | combinator =>
    simp only [Reader.step?] at h
    split at h
    · rename_i hx
      obtain rfl := Option.some.inj h
      exact .combinator hx
    · cases h
  | name =>
    simp only [Reader.step?] at h
    split at h
    · rename_i hx
      split at h
      · rename_i hdivision
        subst hdivision
        obtain rfl := Option.some.inj h
        exact .definitionName hx
      · rename_i hdivision
        obtain rfl := Option.some.inj h
        exact .name hdivision hx
    · cases h

theorem run_of_step (h : Step reader x next) : reader.run (x :: rest) = next.run rest := by
  rw [run, h.step?]

/-! ## Reading what the grammar allows -/

mutual

/-- Behind an item its words are taken, and nothing else has changed unless the item was
    a term. -/
theorem run_item : ∀ {xs : List Lexeme}, IsItem Lexeme.kind xs →
    ∀ {division opens words clauses} {rest : List Lexeme}, division ≠ .opening →
    run ⟨division, opens, .item, words, clauses⟩ (xs ++ rest)
      = (endTerm ⟨division, opens, .item, xs.reverse ++ words, clauses⟩).run rest
  | _, .literal hx => by
    intro _
    exact run_of_step (.literal hx)
  | _, .directive hx hname => by
    intro hdivision
    rw [List.cons_append, run_of_step (.directive hx), List.singleton_append,
      run_of_step (.name hdivision hname)]
    rfl
  | _, .block hopening hbody hclosing hcombinator => by
    intro hdivision
    -- Inside the block no term can end, whatever the part of the text.
    rw [List.append_assoc, List.cons_append, run_of_step (.blockOpen hopening),
      run_items hbody hdivision (by simp), List.cons_append,
      run_of_step (.blockClose hclosing), List.singleton_append,
      run_of_step (.combinator hcombinator)]
    simp
  | _, .conditional htest hconsequent hending => by
    intro hdivision
    rw [List.append_assoc, List.cons_append, run_of_step (.test htest),
      run_items hconsequent hdivision (by simp), List.singleton_append,
      run_of_step (.testEnd (by simp) hending)]
    simp
  | _, .twofold htest hconsequent hmiddle halternative hending => by
    intro hdivision
    rw [List.append_assoc, List.append_assoc, List.cons_append, run_of_step (.test htest),
      run_items hconsequent hdivision (by simp), List.cons_append,
      run_of_step (.alternative hmiddle), run_items halternative hdivision (by simp),
      List.singleton_append, run_of_step (.testEnd (by simp) hending)]
    simp

/-- Inside a definition or an item, the words of a sequence of items are just taken. -/
theorem run_items : ∀ {xs : List Lexeme}, IsItems Lexeme.kind xs →
    ∀ {division opens words clauses} {rest : List Lexeme}, division ≠ .opening →
    (division = .terms → opens ≠ []) →
    run ⟨division, opens, .item, words, clauses⟩ (xs ++ rest)
      = run ⟨division, opens, .item, xs.reverse ++ words, clauses⟩ rest
  | _, .nil => by
    intro _ _
    rfl
  | _, .cons hitem hrest => by
    intro hdivision hinside
    -- The end of a term changes nothing here, so both parts just take their words.
    rw [List.append_assoc, run_item hitem hdivision, endTerm_inside hinside,
      run_items hrest hdivision hinside, List.reverse_append, List.append_assoc]

end

end Reader

/-- Clauses as the grammar reads them off the words of a text. -/
inductive Reads : List Clause → List Lexeme → Prop
  | nil : Reads [] []
  | definition {clauses : List Clause} {opening name closing : Lexeme} {body rest : List Lexeme}
      (hopening : opening.kind = .definitionStart) (hname : name.kind = .word)
      (hbody : IsItems Lexeme.kind body) (hclosing : closing.kind = .definitionEnd)
      (hrest : Reads clauses rest) :
      Reads (.definition name body :: clauses) (opening :: name :: body ++ closing :: rest)
  | term {clauses : List Clause} {item rest : List Lexeme} (hitem : IsItem Lexeme.kind item)
      (hrest : Reads clauses rest) : Reads (.term item :: clauses) (item ++ rest)

/-- Every text of the grammar has its clauses. -/
theorem Reads.of_isText (h : IsText Lexeme.kind xs) : ∃ clauses, Reads clauses xs := by
  induction h with
  | nil => exact ⟨[], .nil⟩
  | definition hopening hname hbody hclosing _ ih =>
    obtain ⟨clauses, hclauses⟩ := ih
    exact ⟨_, .definition hopening hname hbody hclosing hclauses⟩
  | item hitem _ ih =>
    obtain ⟨clauses, hclauses⟩ := ih
    exact ⟨_, .term hitem hclauses⟩

/-- What the grammar reads is a text. -/
theorem Reads.isText (h : Reads clauses xs) : IsText Lexeme.kind xs := by
  induction h with
  | nil => exact .nil
  | definition hopening hname hbody hclosing _ ih =>
    exact .definition hopening hname hbody hclosing ih
  | term hitem _ ih => exact .item hitem ih

/-- The reader gets to the end of a text of the grammar, with its clauses. -/
theorem Reads.run (h : Reads clauses xs) {before : List Clause} :
    Reader.run ⟨.terms, [], .item, [], before⟩ xs
      = .ok ⟨.terms, [], .item, [], clauses.reverse ++ before⟩ := by
  induction h generalizing before with
  | nil => rfl
  | definition hopening hname hbody hclosing _ ih =>
    rw [List.cons_append, List.cons_append, Reader.run_of_step (.definitionStart hopening),
      Reader.run_of_step (.definitionName hname), Reader.run_items hbody (by simp) (by simp),
      Reader.run_of_step (.definitionEnd hclosing), ih]
    simp
  | term hitem _ ih =>
    rw [Reader.run_item hitem (by simp), Reader.endTerm_between, ih]
    simp

end Clause
end StackCalc
