/-
  StackCalc.Proofs.Grammar

  The grammar of programs, as it is written down: a text is a sequence of definitions
  and items; an item is a literal, a directive with its name, a block with its
  combinator, or a conditional with one or two branches.  The grammar is about kinds of
  words only, so it is stated for lists of anything that has a kind: the kinds
  themselves, lexemes, or tokens (`isText_map_iff`).
-/

import StackCalc.Clause

namespace StackCalc
namespace Grammar

variable {α : Type}

mutual

/-- An item, with all the words nested in it. -/
inductive IsItem (kind : α → Kind) : List α → Prop
  | literal {x : α} (hx : kind x = .number ∨ kind x = .symbol ∨ kind x = .word) :
      IsItem kind [x]
  | directive {x name : α} (hx : kind x = .store ∨ kind x = .fetch) (hname : kind name = .word) :
      IsItem kind [x, name]
  | block {opening closing combinator : α} {body : List α} (hopening : kind opening = .blockOpen)
      (hbody : IsItems kind body) (hclosing : kind closing = .blockClose)
      (hcombinator : kind combinator = .combinator) :
      IsItem kind (opening :: body ++ [closing, combinator])
  | conditional {test ending : α} {consequent : List α} (htest : kind test = .test)
      (hconsequent : IsItems kind consequent) (hending : kind ending = .testEnd) :
      IsItem kind (test :: consequent ++ [ending])
  | twofold {test middle ending : α} {consequent alternative : List α}
      (htest : kind test = .test) (hconsequent : IsItems kind consequent)
      (hmiddle : kind middle = .alternative) (halternative : IsItems kind alternative)
      (hending : kind ending = .testEnd) :
      IsItem kind (test :: consequent ++ middle :: alternative ++ [ending])

/-- Any number of items. -/
inductive IsItems (kind : α → Kind) : List α → Prop
  | nil : IsItems kind []
  | cons {item rest : List α} (hitem : IsItem kind item) (hrest : IsItems kind rest) :
      IsItems kind (item ++ rest)

end

/-- A text: any number of definitions and items. -/
inductive IsText (kind : α → Kind) : List α → Prop
  | nil : IsText kind []
  | definition {opening name closing : α} {body rest : List α}
      (hopening : kind opening = .definitionStart) (hname : kind name = .word)
      (hbody : IsItems kind body) (hclosing : kind closing = .definitionEnd)
      (hrest : IsText kind rest) :
      IsText kind (opening :: name :: body ++ closing :: rest)
  | item {item rest : List α} (hitem : IsItem kind item) (hrest : IsText kind rest) :
      IsText kind (item ++ rest)

/-- Words that some text starts with. -/
def IsViable (kinds : List Kind) : Prop :=
  ∃ rest, IsText id (kinds ++ rest)

variable {kind : α → Kind} {xs : List α}

/-! ## Viable words -/

/-- Words in front of viable words are viable. -/
theorem IsViable.of_append {first second : List Kind} (h : IsViable (first ++ second)) :
    IsViable first := by
  obtain ⟨rest, hrest⟩ := h
  exact ⟨second ++ rest, by rwa [← List.append_assoc]⟩

/-- Words that are no text by themselves need more words to be one. -/
theorem goesOn_iff {kinds : List Kind} (h : ¬IsText id kinds) :
    (∃ more, more ≠ [] ∧ IsText id (kinds ++ more)) ↔ IsViable kinds := by
  constructor
  · intro ⟨more, _, hmore⟩
    exact ⟨more, hmore⟩
  · intro ⟨more, hmore⟩
    refine ⟨more, ?_, hmore⟩
    rintro rfl
    rw [List.append_nil] at hmore
    exact h hmore

/-! ## Kinds -/

mutual

theorem IsItem.map : ∀ {xs : List α}, IsItem kind xs → IsItem id (xs.map kind)
  | _, .literal hx => .literal hx
  | _, .directive hx hname => .directive hx hname
  | _, .block hopening hbody hclosing hcombinator => by
    rw [List.map_append]
    exact .block hopening hbody.map hclosing hcombinator
  | _, .conditional htest hconsequent hending => by
    rw [List.map_append]
    exact .conditional htest hconsequent.map hending
  | _, .twofold htest hconsequent hmiddle halternative hending => by
    rw [List.map_append, List.map_append]
    exact .twofold htest hconsequent.map hmiddle halternative.map hending

theorem IsItems.map : ∀ {xs : List α}, IsItems kind xs → IsItems id (xs.map kind)
  | _, .nil => .nil
  | _, .cons hitem hrest => by
    rw [List.map_append]
    exact .cons hitem.map hrest.map

end

theorem IsText.map (h : IsText kind xs) : IsText id (xs.map kind) := by
  induction h with
  | nil => exact .nil
  | definition hopening hname hbody hclosing _ ih =>
    rw [List.map_append]
    exact .definition hopening hname hbody.map hclosing ih
  | item hitem _ ih =>
    rw [List.map_append]
    exact .item hitem.map ih

mutual

theorem IsItem.of_map : ∀ {kinds : List Kind}, IsItem id kinds →
    ∀ xs : List α, xs.map kind = kinds → IsItem kind xs
  | _, .literal hx, xs, hxs => by
    obtain ⟨x, rfl, rfl⟩ := List.map_eq_singleton_iff.mp hxs
    exact .literal hx
  | _, .directive hx hname, xs, hxs => by
    obtain ⟨x, rest, rfl, rfl, hrest⟩ := List.map_eq_cons_iff.mp hxs
    obtain ⟨name, rfl, rfl⟩ := List.map_eq_singleton_iff.mp hrest
    exact .directive hx hname
  | _, .block hopening hbody hclosing hcombinator, xs, hxs => by
    obtain ⟨front, back, rfl, hfront, hback⟩ := List.map_eq_append_iff.mp hxs
    obtain ⟨opening, body, rfl, rfl, hbody'⟩ := List.map_eq_cons_iff.mp hfront
    obtain ⟨closing, rest, rfl, rfl, hrest⟩ := List.map_eq_cons_iff.mp hback
    obtain ⟨combinator, rfl, rfl⟩ := List.map_eq_singleton_iff.mp hrest
    exact .block hopening (hbody.of_map body hbody') hclosing hcombinator
  | _, .conditional htest hconsequent hending, xs, hxs => by
    obtain ⟨front, back, rfl, hfront, hback⟩ := List.map_eq_append_iff.mp hxs
    obtain ⟨test, consequent, rfl, rfl, hconsequent'⟩ := List.map_eq_cons_iff.mp hfront
    obtain ⟨ending, rfl, rfl⟩ := List.map_eq_singleton_iff.mp hback
    exact .conditional htest (hconsequent.of_map consequent hconsequent') hending
  | _, .twofold htest hconsequent hmiddle halternative hending, xs, hxs => by
    obtain ⟨front, back, rfl, hfront, hback⟩ := List.map_eq_append_iff.mp hxs
    obtain ⟨front, rest, rfl, hfront, hrest⟩ := List.map_eq_append_iff.mp hfront
    obtain ⟨test, consequent, rfl, rfl, hconsequent'⟩ := List.map_eq_cons_iff.mp hfront
    obtain ⟨middle, alternative, rfl, rfl, halternative'⟩ := List.map_eq_cons_iff.mp hrest
    obtain ⟨ending, rfl, rfl⟩ := List.map_eq_singleton_iff.mp hback
    exact .twofold htest (hconsequent.of_map consequent hconsequent') hmiddle
      (halternative.of_map alternative halternative') hending

theorem IsItems.of_map : ∀ {kinds : List Kind}, IsItems id kinds →
    ∀ xs : List α, xs.map kind = kinds → IsItems kind xs
  | _, .nil, xs, hxs => by
    rw [List.map_eq_nil_iff.mp hxs]
    exact .nil
  | _, .cons hitem hrest, xs, hxs => by
    obtain ⟨item, rest, rfl, hitem', hrest'⟩ := List.map_eq_append_iff.mp hxs
    exact .cons (hitem.of_map item hitem') (hrest.of_map rest hrest')

end

theorem IsText.of_map {kinds : List Kind} (h : IsText id kinds) (hxs : xs.map kind = kinds) :
    IsText kind xs := by
  induction h generalizing xs with
  | nil =>
    rw [List.map_eq_nil_iff.mp hxs]
    exact .nil
  | definition hopening hname hbody hclosing _ ih =>
    obtain ⟨front, back, rfl, hfront, hback⟩ := List.map_eq_append_iff.mp hxs
    obtain ⟨opening, rest, rfl, rfl, hrest⟩ := List.map_eq_cons_iff.mp hfront
    obtain ⟨name, body, rfl, rfl, hbody'⟩ := List.map_eq_cons_iff.mp hrest
    obtain ⟨closing, rest, rfl, rfl, hrest⟩ := List.map_eq_cons_iff.mp hback
    exact .definition hopening hname (hbody.of_map body hbody') hclosing (ih hrest)
  | item hitem _ ih =>
    obtain ⟨item, rest, rfl, hitem', hrest⟩ := List.map_eq_append_iff.mp hxs
    exact .item (hitem.of_map item hitem') (ih hrest)

/-- Whether words are a text depends on their kinds. -/
theorem isText_map_iff : IsText id (xs.map kind) ↔ IsText kind xs :=
  ⟨fun h => h.of_map rfl, IsText.map⟩

end Grammar
end StackCalc
