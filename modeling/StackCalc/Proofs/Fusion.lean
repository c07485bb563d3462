/-
  StackCalc.Proofs.Fusion

  Maps in sequence.  A program that can get to no store leaves the memory as it is
  (`run_keeps_memory`), and one that draws nothing comes to the same on machines with the same
  memory (`run_sameMemory`).  So it does not matter whether a second block is run on the results
  of a first one when these are complete or on each of them at once: a map after a map is a
  map of both blocks in one (`map_fusion`).
-/

import StackCalc.Proofs.Mapping
import StackCalc.Proofs.Origins
import StackCalc.Proofs.Pieces
import StackCalc.Proofs.Stores

namespace StackCalc

variable {setting : Setting} {library : Library} {depth : Nat} {nodes p q : List Node}

/-! ## Programs that store nothing -/

/-- A node that stores a cell: a store, or a word for a command that stores one in a slot. -/
def Node.Stores (library : Library) (node : Node) : Prop :=
  (∃ name place, node = .store name place)
    ∨ ∃ name place called key slot, node = .word name place
      ∧ library.resolve name (some place) = .ok ⟨called, .command key (.storeSlot slot)⟩

/-- No node that a program can get to stores a cell. -/
def StoresNothing (library : Library) (nodes : List Node) : Prop :=
  Throughout library (fun node => ¬node.Stores library) nodes

/-- A step that stores a cell has a node that does. -/
theorem Node.stores_of_write? {taken : Taken} {w : Write} (h : taken.write? library = some w) :
    taken.node.Stores library := by
  obtain ⟨node, stack⟩ := taken
  cases node with
  | word name place =>
    simp only [Taken.write?] at h
    split at h
    · rename_i called key command hresolve
      cases command with
      | storeSlot slot => exact Or.inr ⟨name, place, called, key, slot, rfl, hresolve⟩
      | _ => cases h
    · cases h
  | store name place => exact Or.inl ⟨name, place, rfl⟩
  | cell | block | branch | fetch => cases h

/-- The steps of such a program store nothing. -/
theorem writes_runSteps (h : StoresNothing setting.library nodes) (depth : Nat) (stack : Stack)
    (m : Machine) : writes setting.library (runSteps setting depth nodes stack m) = [] := by
  cases depth with
  | zero => rfl
  | succ depth =>
    rw [writes, List.filterMap_eq_nil_iff]
    intro taken htaken
    obtain ⟨inner, hreaches, -, rest, hqueue⟩ := mem_runSteps_iff.mp htaken
    have hinner := hreaches.throughout h
    rw [hqueue] at hinner
    cases hwrite : taken.write? setting.library with
    | none => rfl
    | some w => exact absurd (Node.stores_of_write? hwrite) hinner.head

/-- A run of such a program leaves the memory as it is. -/
theorem run_keeps_memory (h : StoresNothing setting.library nodes) (depth : Nat) (stack : Stack)
    (m : Machine) : (run setting depth nodes stack m).2.memory = m.memory := by
  rw [run_memory setting depth nodes stack m, writes_runSteps h]
  rfl

/-! ## Machines with the same memory -/

/-- The second machine has the memory of the first. -/
def Machine.SameMemory (m n : Machine) : Prop := m.memory = n.memory

theorem Machine.SameMemory.kept : Kept SameMemory where
  memory h := h
  store _ _ := rfl
  note h _ := h
  finish h _ := h

/-- A run that draws nothing depends on the memory, and on nothing else of the machine. -/
theorem run_sameMemory (depth : Nat) (h : DrawsNothing setting.library nodes) :
    RunsAlike Machine.SameMemory (run setting depth nodes) (run setting depth nodes) :=
  run_kept Machine.SameMemory.kept depth fun node hnode hdraws => absurd hdraws (h node hnode)

/-! ## Blocks in sequence -/

section

variable (hp : DrawsNothing setting.library p) (hstores : StoresNothing setting.library p)
  (hq : DrawsNothing setting.library q)

include hp hstores hq

/-- What two programs leave that are run on the same memory, the second on the stack of the
    first, is what both leave in one. -/
theorem run_append_sameMemory {stack between last : Stack} {m m' k k' n : Machine}
    (hfirst : run setting depth p stack m = (.ok between, m'))
    (hsecond : run setting depth q between k = (.ok last, k'))
    (hm : m.memory = n.memory) (hk : k.memory = n.memory) :
    ∃ n', run setting depth (p ++ q) stack n = (.ok last, n') ∧ n'.memory = k'.memory := by
  -- The first program leaves the memory alone, so the second finds the one that it was run on.
  obtain ⟨result, _, n₁, hfirst', hn₁, -⟩ := (run_sameMemory depth hp stack m n hm).exists
  cases hfirst.symm.trans hfirst'
  have hkept := run_keeps_memory hstores depth stack n
  rw [hn₁] at hkept
  obtain ⟨result, _, n₂, hsecond', hn₂, hmemory⟩ :=
    (run_sameMemory depth hq between k n₁ (hk.trans hkept.symm)).exists
  cases hsecond.symm.trans hsecond'
  have hturn : InTurn (run setting depth) p q stack n := run_inTurn
  simp only [InTurn, hn₁, hn₂] at hturn
  obtain ⟨result, n', _, hjoint, hn', hahead⟩ := hturn.exists
  cases hn'
  exact ⟨n', hjoint, hahead.memory.symm.trans hmemory.symm⟩

/-- Cells that are mapped by one program and then by another are mapped by both in one. -/
theorem MapsTo.fuse (hstores' : StoresNothing setting.library q)
    {items between results : List Cell} {m m' k k' n : Machine}
    (h : MapsTo (run setting depth p) items m between m')
    (h' : MapsTo (run setting depth q) between k results k')
    (hm : m.memory = n.memory) (hk : k.memory = n.memory) :
    ∃ n', MapsTo (run setting depth (p ++ q)) items n results n' ∧ n'.memory = n.memory := by
  induction h generalizing results k n with
  | nil m =>
    cases h'
    exact ⟨n, .nil n, rfl⟩
  | @cons item result items between m m₁ m' one others ih =>
    cases h' with
    | @cons _ last _ results _ k₁ _ one' others' =>
      -- Neither block changes the memory, so all runs are on the same one.
      have hm₁ : m₁.memory = m.memory := by
        have hkept := run_keeps_memory hstores depth [item] m
        rwa [one] at hkept
      have hk₁ : k₁.memory = k.memory := by
        have hkept := run_keeps_memory hstores' depth [result] k
        rwa [one'] at hkept
      obtain ⟨n₁, hone, hn₁⟩ := run_append_sameMemory hp hstores hq one one' hm hk
      have hsame : n₁.memory = n.memory := hn₁.trans (hk₁.trans hk)
      obtain ⟨n', hothers, hn'⟩ := ih others' (hm₁.trans (hm.trans hsame.symm))
        (hk₁.trans (hk.trans hsame.symm))
      exact ⟨n', .cons hone hothers, hn'.trans hsame⟩

end

/-- Cells that are mapped by a program that stores nothing leave the memory as it is. -/
theorem MapsTo.keeps_memory (h : StoresNothing setting.library p) {items results : List Cell}
    {m m' : Machine} (hmaps : MapsTo (run setting depth p) items m results m') :
    m'.memory = m.memory := by
  induction hmaps with
  | nil m => rfl
  | @cons item result items results m k m' one _ ih =>
    have hkept := run_keeps_memory h depth [item] m
    rw [one] at hkept
    exact ih.trans hkept

/-- A frame that starts with a map succeeds exactly if the stack is mapped and the frame goes on
    with the results. -/
theorem runFrame_map_ok_iff {nested : Nested} {step : Nat} {body rest : List Node} {place : Place}
    {stack result : Stack} {m m' : Machine} :
    runFrame setting nested step (.block body .map place :: rest) stack m = (.ok result, m')
      ↔ ∃ results k,
        MapsTo (nested body) stack.reverse
            (traced setting step (.block body .map place :: rest) stack m) results k
          ∧ runFrame setting nested (step + 1) rest results.reverse k = (.ok result, m') := by
  have hblock : ∀ test consequent alternative other,
      Node.block body .map place ≠ .branch test consequent alternative other := by simp
  rw [runFrame_cons, stepNode_of_ne_branch _ _ hblock]
  simp only [executeNode, applyBlock]
  constructor
  · intro h
    cases hmap : mapItems (nested body) (combinatorError .map place stack) [] stack.reverse
        (traced setting step (.block body .map place :: rest) stack m) with
    | mk outcome k =>
      rw [hmap] at h
      cases outcome with
      | error error => cases h
      | ok next =>
        obtain ⟨results, hresults, rfl⟩ := mapItems_ok_iff.mp hmap
        rw [List.append_nil] at h
        exact ⟨results, k, hresults, h⟩
  · rintro ⟨results, k, hresults, h⟩
    have hmap : mapItems (nested body) (combinatorError .map place stack) [] stack.reverse
        (traced setting step (.block body .map place :: rest) stack m)
        = (.ok results.reverse, k) :=
      mapItems_ok_iff.mpr ⟨results, hresults, (List.append_nil _).symm⟩
    rw [hmap]
    exact h

/-- Where a map of one block and then of another succeeds, neither of which can get to a store or
    to a random number, the map of both blocks in one succeeds with the same stack and the same
    memory, which is the one before. -/
theorem map_fusion (setting : Setting) (depth : Nat) (p q : List Node) (first second joint : Place)
    (hp : StoresNothing setting.library p) (hp' : DrawsNothing setting.library p)
    (hq : StoresNothing setting.library q) (hq' : DrawsNothing setting.library q)
    (stack result : Stack) (m m' : Machine)
    (h : run setting depth [.block p .map first, .block q .map second] stack m
      = (.ok result, m')) :
    ∃ n, run setting depth [.block (p ++ q) .map joint] stack m = (.ok result, n)
      ∧ n.memory = m'.memory ∧ m'.memory = m.memory := by
  cases depth with
  | zero => cases h
  | succ depth =>
    obtain ⟨between, k, hfirst, h⟩ := runFrame_map_ok_iff.mp h
    obtain ⟨results, k', hsecond, h⟩ := runFrame_map_ok_iff.mp h
    rw [List.reverse_reverse] at hsecond
    rw [runFrame_nil] at h
    cases h
    -- Neither map changes the memory, and a trace does not look at it.
    have hk : k.memory = m.memory := (hfirst.keeps_memory hp).trans (traced_memory ..)
    have hk' : k'.memory = m.memory :=
      (hsecond.keeps_memory hq).trans ((traced_memory ..).trans hk)
    have hjoint : ∀ step nodes, (traced setting step nodes stack m).memory = m.memory :=
      fun step nodes => traced_memory step nodes stack m
    obtain ⟨n, hmaps, hn⟩ : ∃ n, MapsTo (run setting depth (p ++ q)) stack.reverse
        (traced setting 0 [.block (p ++ q) .map joint] stack m) results n ∧ n.memory = m.memory := by
      obtain ⟨n, hmaps, hn⟩ := hfirst.fuse hp' hp hq' hq hsecond
        ((hjoint 0 _).trans (hjoint 0 [.block (p ++ q) .map joint]).symm)
        ((traced_memory ..).trans (hk.trans (hjoint 0 _).symm))
      exact ⟨n, hmaps, hn.trans (hjoint 0 _)⟩
    have hfinished : ∀ (n : Machine) step,
        (finished setting step results.reverse n).memory = n.memory :=
      fun n step => (Machine.alike_finished ..).memory
    refine ⟨_, runFrame_map_ok_iff.mpr ⟨results, n, hmaps, runFrame_nil ..⟩, ?_, ?_⟩
    · rw [hfinished, hfinished, hn, hk']
    · rw [hfinished, hk']

/-- A library with a definition that multiplies by a variable. -/
def scaling : Library :=
  Library.fresh.define "times" ⟨[.fetch "k" .unknown, .word "mul" .unknown], .empty none⟩

/-- A block that adds one to what is not greater than 25. -/
def raising : List Node :=
  [.word "dup" .unknown, .cell (.number 25), .branch .greater [] [.word "inc" .unknown] .unknown]

/-- What a call of the definition and that block can get to. -/
def scalingNodes : List Node :=
  .word "times" .unknown :: .fetch "k" .unknown :: .word "mul" .unknown :: .word "inc" .unknown
    :: raising

theorem scaling_reachable {nodes : List Node} (h : nodes ⊆ scalingNodes) :
    Throughout scaling (· ∈ scalingNodes) nodes := by
  refine .of_closed (fun x hx => h hx) ?_ ?_
  · intro test consequent alternative place hbranch x hx
    obtain ⟨-, rfl, rfl, -⟩ : test = .greater ∧ consequent = []
        ∧ alternative = [.word "inc" .unknown] ∧ place = .unknown := by
      simpa [scalingNodes, raising] using hbranch
    rw [List.nil_append, List.mem_singleton] at hx
    rw [hx]
    simp [scalingNodes]
  · intro outer body houter hruns
    cases hruns with
    | block body combinator place => simp [scalingNodes, raising] at houter
    | word resolved =>
      have hprogram := Library.definition_of_resolve resolved
      rw [scaling, Library.define, Table.get?_set] at hprogram
      split at hprogram
      · cases hprogram
        simp [scalingNodes]
      · cases hprogram

/-- No such node stores a cell or draws a random number. -/
theorem scaling_harmless : ∀ node ∈ scalingNodes, ¬node.Stores scaling ∧ ¬node.Draws scaling := by
  have hwords : ∀ name ∈ ["times", "mul", "inc", "dup"], ∀ place operation,
      scaling.resolve name place = .ok operation →
        (∀ key slot, operation.target ≠ .command key (.storeSlot slot))
          ∧ ∀ key, operation.target ≠ .function key .random := by
    intro name hname place operation hresolve
    simp only [List.mem_cons, List.not_mem_nil, or_false] at hname
    obtain rfl | rfl | rfl | rfl := hname
    all_goals
      cases hresolve
      exact ⟨by simp, by simp⟩
  have hcases : ∀ node ∈ scalingNodes,
      (∃ name ∈ ["times", "mul", "inc", "dup"], node = .word name .unknown)
        ∨ ∀ name place, node ≠ .word name place ∧ node ≠ .store name place := by
    simp [scalingNodes, raising]
  intro node hnode
  obtain ⟨name, hname, rfl⟩ | hother := hcases node hnode
  · constructor
    · rintro (⟨_, _, hstore⟩ | ⟨_, _, _, key, slot, hword, hresolve⟩)
      · cases hstore
      · cases hword
        exact (hwords name hname _ _ hresolve).1 key slot rfl
    · rintro ⟨_, _, _, key, hword, hresolve⟩
      cases hword
      exact (hwords name hname _ _ hresolve).2 key rfl
  · constructor
    · rintro (⟨name, place, hstore⟩ | ⟨name, place, _, _, _, hword, _⟩)
      · exact (hother name place).2 hstore
      · exact (hother name place).1 hword
    · rintro ⟨name, place, _, _, hword, _⟩
      exact (hother name place).1 hword

/-- A call that reads a variable and a block with a conditional, on a stack of two numbers. -/
theorem map_fusion_scaling :
    (StoresNothing scaling [.word "times" .unknown] ∧ DrawsNothing scaling [.word "times" .unknown]
        ∧ StoresNothing scaling raising ∧ DrawsNothing scaling raising)
      ∧ ∃ m' n,
        run ⟨scaling, .default, 0⟩ 4
            [.block [.word "times" .unknown] .map .unknown, .block raising .map .unknown]
            [.number 3, .number 2] (.start (Memory.fresh.setValue "k" (.number 10)) 0)
          = (.ok [.number 30, .number 21], m')
        ∧ run ⟨scaling, .default, 0⟩ 4
            [.block (.word "times" .unknown :: raising) .map .unknown]
            [.number 3, .number 2] (.start (Memory.fresh.setValue "k" (.number 10)) 0)
          = (.ok [.number 30, .number 21], n)
        ∧ n.memory = m'.memory := by
  have htimes : Throughout scaling (· ∈ scalingNodes) [.word "times" .unknown] :=
    scaling_reachable (by simp [scalingNodes])
  have hraising : Throughout scaling (· ∈ scalingNodes) raising :=
    scaling_reachable (by simp [scalingNodes, raising])
  have hharmless : ∀ {nodes : List Node}, Throughout scaling (· ∈ scalingNodes) nodes →
      StoresNothing scaling nodes ∧ DrawsNothing scaling nodes := fun h =>
    ⟨h.imp fun node hnode => (scaling_harmless node hnode).1,
      h.imp fun node hnode => (scaling_harmless node hnode).2⟩
  obtain ⟨hp, hp'⟩ := hharmless htimes
  obtain ⟨hq, hq'⟩ := hharmless hraising
  refine ⟨⟨hp, hp', hq, hq'⟩, ?_⟩
  have hresult : (run ⟨scaling, .default, 0⟩ 4
      [.block [.word "times" .unknown] .map .unknown, .block raising .map .unknown]
      [.number 3, .number 2] (.start (Memory.fresh.setValue "k" (.number 10)) 0)).1
        = .ok [.number 30, .number 21] := by
    rw [run_result]
    decide +kernel
  obtain ⟨n, hjoint, hn, -⟩ := map_fusion ⟨scaling, .default, 0⟩ 4 [.word "times" .unknown] raising
    .unknown .unknown .unknown hp hp' hq hq' _ _ _ _ (Prod.ext hresult rfl)
  exact ⟨_, n, Prod.ext hresult rfl, hjoint, hn⟩

end StackCalc
