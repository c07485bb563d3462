/-
  StackCalc.Proofs.Keywords

  Programs without unknown keywords.  A node can hold any keyword as its comparison or its
  combinator, but only four and three of them mean something.  The words of a text have
  their kinds from their spelling, so an assembly of such words never meets another keyword:
  its state stays without unknown ones word by word (`State.Known.step`), and so does the
  program at the end (`known_of_assemble`).
-/

import StackCalc.Proofs.Reconstruction

namespace StackCalc

/-! ## Known keywords -/

/-- A comparison that is one of the four. -/
def Test.Known (test : Test) : Prop := ∀ keyword, test ≠ .unknown keyword

/-- A combinator that is one of the three. -/
def Combinator.Known (combinator : Combinator) : Prop := ∀ keyword, combinator ≠ .unknown keyword

namespace Node

mutual

/-- A node without unknown keywords, also inside of its block or its branches. -/
def Known : Node → Prop
  | block body combinator _ => combinator.Known ∧ KnownAll body
  | branch test consequent alternative _ =>
    test.Known ∧ KnownAll consequent ∧ KnownAll alternative
  | _ => True

/-- Nodes without unknown keywords. -/
def KnownAll : List Node → Prop
  | [] => True
  | node :: rest => Known node ∧ KnownAll rest

end

theorem knownAll_iff {nodes : List Node} : KnownAll nodes ↔ ∀ node ∈ nodes, node.Known := by
  induction nodes with
  | nil => simp [KnownAll]
  | cons node rest ih => rw [KnownAll, ih, List.forall_mem_cons]

theorem knownAll_reverse {nodes : List Node} (h : KnownAll nodes) : KnownAll nodes.reverse := by
  rw [knownAll_iff] at h ⊢
  exact fun node hnode => h node (List.mem_reverse.mp hnode)

end Node

/-- Comparisons and combinators are spelled in no other way. -/
theorem keywordKind_of_kindOf {s : String}
    (h : kindOf s.toList = .test ∨ kindOf s.toList = .combinator) :
    keywordKind? s = some (kindOf s.toList) := by
  obtain hkeyword | ⟨hkind, _⟩ | ⟨hkind, _⟩ | hkind := kindOf_cases s.toList
  · rwa [String.ofList_toList] at hkeyword
  all_goals simp [hkind] at h

theorem Test.known_ofKeyword {s : String} (h : kindOf s.toList = .test) : (ofKeyword s).Known := by
  have hkeyword := keywordKind_of_kindOf (Or.inl h)
  rw [h] at hkeyword
  unfold keywordKind? at hkeyword
  split at hkeyword <;> cases hkeyword
  all_goals simp [ofKeyword, Known]

theorem Combinator.known_ofKeyword {s : String} (h : kindOf s.toList = .combinator) :
    (ofKeyword s).Known := by
  have hkeyword := keywordKind_of_kindOf (Or.inr h)
  rw [h] at hkeyword
  unfold keywordKind? at hkeyword
  split at hkeyword <;> cases hkeyword
  all_goals simp [ofKeyword, Known]

namespace Assembly

/-! ## Assemblies -/

/-- An open construct without unknown keywords. -/
def Pending.Known (construct : Pending) : Prop :=
  Node.KnownAll construct.before
    ∧ (construct.opener = .test → (Test.ofKeyword construct.text).Known)

/-- The state of an assembly without unknown keywords. -/
structure State.Known (state : State) : Prop where
  output : Node.KnownAll state.output
  pending : ∀ construct ∈ state.pending, construct.Known

namespace State.Known

variable {state next : State} {x : Token}

theorem start (extent : Extent) : (State.start extent).Known :=
  ⟨trivial, nofun⟩

theorem push (h : state.Known) {node : Node} (hnode : node.Known) : (state.push node).Known :=
  ⟨⟨hnode, h.output⟩, h.pending⟩

theorem openWith (h : state.Known) {opener : Opener}
    (htest : opener = .test → (Test.ofKeyword x.text).Known) : (state.openWith opener x).Known :=
  ⟨trivial, List.forall_mem_cons.mpr ⟨⟨h.output, htest⟩, h.pending⟩⟩

theorem closeBlock (h : state.Known) (hx : (Combinator.ofKeyword x.text).Known)
    (hclose : state.closeBlock x = .ok next) : next.Known := by
  unfold State.closeBlock at hclose
  split at hclose
  · -- The nodes of the block are kept with its closing bracket.
    rename_i hpending
    have hopen := h.pending
    rw [hpending, List.forall_mem_cons, List.forall_mem_cons] at hopen
    obtain ⟨⟨hbody, -⟩, ⟨hbefore, -⟩, hrest⟩ := hopen
    cases hclose
    exact ⟨⟨⟨hx, Node.knownAll_reverse hbody⟩, hbefore⟩, hrest⟩
  · cases hclose
  · cases hclose

theorem closeTest (h : state.Known) (hclose : state.closeTest x = .ok next) : next.Known := by
  have hopen := h.pending
  have houtput := Node.knownAll_reverse h.output
  unfold State.closeTest at hclose
  split at hclose
  · -- With an alternative, the consequent is kept with the word between the two.
    rename_i hpending
    rw [hpending, List.forall_mem_cons, List.forall_mem_cons] at hopen
    obtain ⟨⟨hconsequent, -⟩, ⟨hbefore, htest⟩, hrest⟩ := hopen
    cases hclose
    exact ⟨⟨⟨htest rfl, Node.knownAll_reverse hconsequent, houtput⟩, hbefore⟩, hrest⟩
  · rename_i hpending
    rw [hpending, List.forall_mem_cons] at hopen
    obtain ⟨⟨hbefore, htest⟩, hrest⟩ := hopen
    cases hclose
    exact ⟨⟨⟨htest rfl, houtput, trivial⟩, hbefore⟩, hrest⟩
  · cases hclose

theorem item (h : state.Known) (hx : x.Genuine) (hitem : state.item x = .ok next) :
    next.Known := by
  -- What a word is spelled like matters where it becomes part of a node: for a test when its
  -- conditional is opened, for a combinator at once.
  have htest : x.kind = .test → (Test.ofKeyword x.text).Known := fun hkind =>
    Test.known_ofKeyword (hx.symm.trans hkind)
  have hcombinator : x.kind = .combinator → (Combinator.ofKeyword x.text).Known := fun hkind =>
    Combinator.known_ofKeyword (hx.symm.trans hkind)
  unfold State.item at hitem
  cases hkind : x.kind <;> rw [hkind] at hitem
  case number =>
    dsimp only at hitem
    split at hitem
    · cases hitem
      exact h.push trivial
    · cases hitem
  case symbol | word =>
    cases hitem
    exact h.push trivial
  case store | fetch =>
    cases hitem
    exact ⟨h.output, h.pending⟩
  case blockOpen | blockClose =>
    cases hitem
    exact h.openWith nofun
  case test =>
    cases hitem
    exact h.openWith fun _ => htest hkind
  case alternative =>
    dsimp only at hitem
    split at hitem
    · cases hitem
      exact h.openWith nofun
    · cases hitem
  case combinator => exact h.closeBlock (hcombinator hkind) hitem
  case testEnd => exact h.closeTest hitem
  all_goals cases hitem

/-- No word of a text brings an unknown keyword in. -/
theorem step (h : state.Known) (hx : x.Genuine) (hstep : state.step x = .ok next) :
    next.Known := by
  obtain ⟨output, pending, directive, extent⟩ := state
  cases directive with
  | none =>
    rw [step_item] at hstep
    have hwidened : State.Known ⟨output, pending, none, widened extent x⟩ := ⟨h.output, h.pending⟩
    exact hwidened.item hx hstep
  | some directive =>
    by_cases hkind : x.kind = .word
    · rw [step_name hkind] at hstep
      cases hstep
      refine ⟨⟨?_, h.output⟩, h.pending⟩
      rw [Directive.node]
      split <;> trivial
    · unfold State.step at hstep
      split at hstep <;> simp [hkind] at hstep

end State.Known

theorem State.Known.foldlM {state final : State} {xs : List Token} (h : state.Known)
    (hxs : ∀ x ∈ xs, x.Genuine) (hfold : xs.foldlM State.step state = .ok final) :
    final.Known := by
  induction xs generalizing state with
  | nil =>
    cases hfold
    exact h
  | cons x rest ih =>
    rw [List.foldlM_cons] at hfold
    cases hstep : state.step x with
    | error error =>
      rw [hstep] at hfold
      cases hfold
    | ok next =>
      rw [hstep] at hfold
      obtain ⟨hx, hrest⟩ := List.forall_mem_cons.mp hxs
      exact ih (h.step hx hstep) hrest hfold

end Assembly

/-- A program that was assembled from words of a text holds no unknown keyword. -/
theorem known_of_assemble {xs : List Token} {extent : Extent} {program : Program}
    (hxs : ∀ x ∈ xs, x.Genuine) (h : assemble xs extent = .ok program) :
    Node.KnownAll program.nodes := by
  unfold assemble at h
  cases hfold : xs.foldlM Assembly.State.step (.start extent) with
  | error error =>
    rw [hfold] at h
    cases h
  | ok final =>
    rw [hfold] at h
    have hfinal := (Assembly.State.Known.start extent).foldlM hxs hfold
    simp only [Except.bind, Assembly.State.finish] at h
    split at h
    · cases h
      exact Node.knownAll_reverse hfinal.output
    · cases h

end StackCalc
