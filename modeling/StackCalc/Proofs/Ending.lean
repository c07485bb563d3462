/-
  StackCalc.Proofs.Ending

  How programs end, whatever was counted or traced before and however deep frames may be
  nested.  Machines are `Alike` if nothing but counts and traces tells them apart; frames
  on such machines have the same results (`runFrame_agree`), and a queue in two parts can
  be worked off in two frames (`runFrame_append`).  A run that does not fail for its depth
  has the same result at every greater depth (`run_agree_succ`), so a program yields
  at most one result (`Yields.unique`).
-/

import StackCalc.Proofs.Simulation

namespace StackCalc

/-! ## Machines that only counts and traces tell apart -/

/-- The same was stored, printed by the program itself, and drawn. -/
structure Machine.Alike (m n : Machine) : Prop where
  memory : m.memory = n.memory
  printed : m.printed = n.printed
  seed : m.seed = n.seed

namespace Machine

variable {m n k : Machine}

theorem Alike.refl (m : Machine) : Alike m m := ⟨rfl, rfl, rfl⟩

theorem Alike.symm (h : Alike m n) : Alike n m :=
  ⟨h.memory.symm, h.printed.symm, h.seed.symm⟩

theorem Alike.trans (h : Alike m n) (h' : Alike n k) : Alike m k :=
  ⟨h.memory.trans h'.memory, h.printed.trans h'.printed, h.seed.trans h'.seed⟩

/-- No step looks at counts and traces. -/
theorem Alike.simulation : Simulation Alike where
  memory h := h.memory
  store h _ := ⟨rfl, h.printed, h.seed⟩
  print h line := ⟨h.memory, congrArg (line :: ·) h.printed, h.seed⟩
  draw {m n} h := by
    obtain ⟨fraction, seed, hdraw⟩ := draw_of_seed n.seed
    rw [hdraw m h.seed, hdraw n rfl]
    exact ⟨rfl, h.memory, h.printed, rfl⟩

theorem alike_traced (setting : Setting) (step : Nat) (nodes : List Node) (stack : Stack)
    (m : Machine) : Alike (traced setting step nodes stack m) m := by
  rw [traced]
  split
  · exact ⟨rfl, rfl, rfl⟩
  · exact .refl m

theorem alike_finished (setting : Setting) (step : Nat) (stack : Stack) (m : Machine) :
    Alike (finished setting step stack m) m := by
  rw [finished]
  split <;> exact ⟨rfl, rfl, rfl⟩

variable {setting setting' : Setting} {step step' : Nat} {stack stack' : Stack}

theorem Alike.traced {nodes nodes' : List Node} (h : Alike m n) :
    Alike (traced setting step nodes stack m) (traced setting' step' nodes' stack' n) :=
  (alike_traced ..).trans (h.trans (alike_traced ..).symm)

theorem Alike.finished (h : Alike m n) :
    Alike (finished setting step stack m) (finished setting' step' stack' n) :=
  (alike_finished ..).trans (h.trans (alike_finished ..).symm)

end Machine

/-! ## Frames side by side -/

/-- The error of a run that has given up because its frames are nested too deep. -/
def Error.IsTooDeep (error : Error) : Prop := error = .fault .tooDeep

/-- A side that has given up has given up in all frames around. -/
def Error.Persists (gaveUp : Error → Prop) : Prop :=
  ∀ error node stack, gaveUp error → gaveUp (error.blamedOnNode node stack)

theorem Error.none_persists : Persists Error.none := fun _ _ _ h => h

theorem Error.isTooDeep_persists : Persists Error.IsTooDeep := by
  rintro error node stack rfl
  rfl

variable {setting : Setting} {nested nested' : Nested} {gaveUp gaveUp' : Error → Prop}
  {m n : Machine}

/-- Two frames agree if their first steps do and if they agree on what is left behind. -/
theorem runFrame_cons_agree (node node' : Node) {rest rest' : List Node} {stack : Stack}
    (hleft : Error.Persists gaveUp) (hright : Error.Persists gaveUp')
    (htoken : node.token = node'.token) (hplace : node.place? = node'.place?)
    (hstep : ∀ m n, Machine.Alike m n →
      Reply.Agree gaveUp gaveUp' Machine.Alike (stepNode setting nested node stack m)
        (stepNode setting nested' node' stack n))
    (hrest : ∀ front next step step' m n, Node.sizeAll front < node.size → Machine.Alike m n →
      Reply.Agree gaveUp gaveUp' Machine.Alike (runFrame setting nested step (front ++ rest) next m)
        (runFrame setting nested' step' (front ++ rest') next n))
    (step step' : Nat) (h : Machine.Alike m n) :
    Reply.Agree gaveUp gaveUp' Machine.Alike (runFrame setting nested step (node :: rest) stack m)
      (runFrame setting nested' step' (node' :: rest') stack n) := by
  rw [runFrame_cons, runFrame_cons]
  obtain ⟨error, m', hfirst, hgave⟩ | ⟨error, n', hsecond, hgave⟩ |
    ⟨result, m', n', hfirst, hsecond, h'⟩ := hstep _ _ h.traced
  · exact .left (by rw [hfirst]) (hleft _ node stack hgave)
  · exact .right (by rw [hsecond]) (hright _ node' stack hgave)
  · rw [hfirst, hsecond]
    match result with
    | .error error =>
      simp only [Error.blamedOnNode, htoken, hplace]
      exact .same _ h'
    | .ok (next, front) => exact hrest front next _ _ _ _ (stepNode_size hfirst) h'

/-- Frames with the same queue agree if the programs that they run inside agree. -/
theorem runFrame_agree (hleft : Error.Persists gaveUp) (hright : Error.Persists gaveUp')
    (hagree : ∀ body, RunsAgree gaveUp gaveUp' Machine.Alike (nested body) (nested' body))
    (queue : List Node) (stack : Stack) (step step' : Nat) (h : Machine.Alike m n) :
    Reply.Agree gaveUp gaveUp' Machine.Alike (runFrame setting nested step queue stack m)
      (runFrame setting nested' step' queue stack n) := by
  induction queue using frameInduction generalizing stack step step' m n with
  | nil =>
    rw [runFrame_nil, runFrame_nil]
    exact .same _ h.finished
  | cons node rest ih =>
    refine runFrame_cons_agree node node hleft hright rfl rfl ?_ ?_ step step' h
    · intro m n h
      exact stepNode_agree Machine.Alike.simulation rfl (fun _ _ _ => rfl)
        (fun body _ => hagree body) stack h
    · intro front next step step' m n hfront h
      exact ih front hfront next step step' h

/-- A queue in two parts is worked off like its parts in two frames. -/
theorem runFrame_append
    (halike : ∀ body, RunsAlike Machine.Alike (nested body) (nested body))
    (p q : List Node) (stack : Stack) (step first second : Nat) (h : Machine.Alike m n) :
    Reply.Related Machine.Alike (runFrame setting nested step (p ++ q) stack m)
      (match runFrame setting nested first p stack n with
        | (.error error, n) => (.error error, n)
        | (.ok next, n) => runFrame setting nested second q next n) := by
  induction p using frameInduction generalizing stack step first m n with
  | nil =>
    rw [List.nil_append, runFrame_nil]
    exact (runFrame_agree Error.none_persists Error.none_persists
      (fun body => (halike body).agree) q stack step second
      (h.trans (Machine.alike_finished ..).symm)).related
  | cons node rest ih =>
    rw [List.cons_append, runFrame_cons, runFrame_cons]
    obtain ⟨result, m', n', hjoint, hfirst, h'⟩ :=
      (stepNode_related Machine.Alike.simulation (Eq.refl setting.config)
        (fun _ _ _ => rfl) (fun body _ => halike body) stack h.traced).exists
    rw [hjoint, hfirst]
    match result with
    | .error error => exact .of_machines _ h'
    | .ok (next, front) =>
      dsimp only
      rw [← List.append_assoc]
      exact ih front (stepNode_size hjoint) next (step + 1) (first + 1) h'

/-! ## Depth -/

theorem run_alike (setting : Setting) (depth : Nat) (nodes : List Node) :
    RunsAlike Machine.Alike (run setting depth nodes) (run setting depth nodes) := by
  induction depth generalizing nodes with
  | zero => exact fun _ _ _ h => .of_machines _ h
  | succ depth ih =>
    intro stack m n h
    exact (runFrame_agree Error.none_persists Error.none_persists
      (fun body => (ih body).agree) nodes stack 0 0 h).related

/-- A run has the same result if frames may be nested deeper, unless it gives up. -/
theorem run_agree_succ (setting : Setting) (depth : Nat) (nodes : List Node) :
    RunsAgree Error.IsTooDeep Error.none Machine.Alike (run setting depth nodes)
      (run setting (depth + 1) nodes) := by
  induction depth generalizing nodes with
  | zero => exact fun _ _ _ _ => .left rfl rfl
  | succ depth ih =>
    intro stack m n h
    exact runFrame_agree Error.isTooDeep_persists Error.none_persists ih nodes stack 0 0 h

/-- A result other than giving up is also that of the other side. -/
theorem Reply.Agree.exists {α : Type} {x y : Reply α} {result : Except Error α}
    (h : Reply.Agree Error.IsTooDeep Error.none Machine.Alike x y) (hx : x = (result, m))
    (hresult : result ≠ .error (.fault .tooDeep)) : ∃ n, y = (result, n) ∧ Machine.Alike m n := by
  obtain ⟨error, k, hgave, rfl⟩ | ⟨_, _, _, hnone⟩ | ⟨result', k, n, hx', hy, hk⟩ := h
  · cases hx.symm.trans hgave
    exact absurd rfl hresult
  · exact hnone.elim
  · cases hx.symm.trans hx'
    exact ⟨n, hy, hk⟩

theorem run_of_le {depth depth' : Nat} (hdepth : depth ≤ depth') {nodes : List Node}
    {stack : Stack} {result : Except Error Stack} {k : Machine}
    (hrun : run setting depth nodes stack m = (result, k))
    (hresult : result ≠ .error (.fault .tooDeep)) :
    ∃ k', run setting depth' nodes stack m = (result, k') ∧ Machine.Alike k k' := by
  induction hdepth with
  | refl => exact ⟨k, hrun, .refl k⟩
  | @step depth' _ ih =>
    obtain ⟨k', hrun', hk⟩ := ih
    obtain ⟨k'', hrun'', hk'⟩ :=
      (run_agree_succ setting depth' nodes stack m m (.refl m)).exists hrun' hresult
    exact ⟨k'', hrun'', hk.trans hk'⟩

/-! ## Endings -/

/-- A program yields a result, or fails with an error, and leaves a machine, if frames may be
    nested as deep as it takes. -/
def Yields (setting : Setting) (nodes : List Node) (stack : Stack) (m : Machine)
    (result : Except Error Stack) (k : Machine) : Prop :=
  result ≠ .error (.fault .tooDeep) ∧ ∃ depth, run setting depth nodes stack m = (result, k)

namespace Yields

variable {p q : List Node} {stack : Stack} {result result' : Except Error Stack} {k k' : Machine}

/-- A program yields what another one yields that it agrees with at some depth for every depth. -/
theorem of_agree
    (hagree : ∀ depth, ∃ depth', RunsAgree Error.IsTooDeep Error.none Machine.Alike
      (run setting depth p) (run setting depth' q))
    (h : Yields setting p stack m result k) :
    ∃ k', Yields setting q stack m result k' ∧ Machine.Alike k k' := by
  obtain ⟨hresult, depth, hrun⟩ := h
  obtain ⟨depth', hdepth⟩ := hagree depth
  obtain ⟨k', hrun', hk⟩ := (hdepth stack m m (.refl m)).exists hrun hresult
  exact ⟨k', ⟨hresult, depth', hrun'⟩, hk⟩

/-- A program yields at most one result. -/
theorem unique (h : Yields setting p stack m result k) (h' : Yields setting p stack m result' k') :
    result = result' ∧ Machine.Alike k k' := by
  obtain ⟨hresult, depth, hrun⟩ := h
  obtain ⟨hresult', depth', hrun'⟩ := h'
  obtain ⟨n, hn, hk⟩ := run_of_le (Nat.le_max_left depth depth') hrun hresult
  obtain ⟨n', hn', hk'⟩ := run_of_le (Nat.le_max_right depth depth') hrun' hresult'
  cases hn.symm.trans hn'
  exact ⟨rfl, hk.trans hk'.symm⟩

end Yields
end StackCalc
