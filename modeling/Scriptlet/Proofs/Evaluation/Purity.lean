import Scriptlet.Proofs.Evaluation.Blame

/-! Trees without declarations. Nothing that such a tree does can be told afterwards, so it does the
same when it is run again, and a loop of this kind that has gone round once goes round for ever. -/

namespace Scriptlet

@[simp] def Node.isDeclaration : Node → Bool
  | declare .. => true
  | _ => false

def Node.DeclaresNothing (n : Node) : Prop := ∀ m ∈ n.nodes, m.isDeclaration = false

theorem Runs.environment_eq {σ : List Scope} {task : Task} {e e' : Environment} {o : Outcome}
    (h : Runs σ task e o e') (hpure : ∀ m ∈ task.nodes, m.isDeclaration = false) : e' = e := by
  induction h with
  | literal | invalid | access | undeclared | breakLoop | continueLoop | missing | done => rfl
  | unary _ _ _ ih | unaryFails _ _ _ ih | unaryStops _ _ ih | group _ ih =>
    simp only [Task.nodes, Node.nodes_unary, Node.nodes_group, List.forall_mem_cons] at hpure
    exact ih hpure.2
  | binary _ _ _ _ _ ihleft ihright | binaryFails _ _ _ _ _ ihleft ihright
  | rightStops _ _ _ _ ihleft ihright =>
    simp only [Task.nodes, Node.nodes_binary, List.forall_mem_cons, List.forall_mem_append] at hpure
    exact (ihright hpure.2.2).trans (ihleft hpure.2.1)
  | leftStops _ _ ih =>
    simp only [Task.nodes, Node.nodes_binary, List.forall_mem_cons, List.forall_mem_append] at hpure
    exact ih hpure.2.1
  | declare | declareFails | declareStops =>
    have hdeclaration := hpure _ (Node.self_mem_nodes _)
    cases hdeclaration
  | branch _ _ _ _ ih ihbody | loopBreaks _ _ _ _ ih ihbody | loopFails _ _ _ _ ih ihbody =>
    simp only [Task.nodes, Node.nodes_branch, Node.nodes_loop, List.forall_mem_cons,
      List.forall_mem_append] at hpure
    exact (ihbody hpure.2.2).trans (ih hpure.2.1)
  | branchSkips _ _ _ ih | branchStops _ _ ih | loopEnds _ _ _ ih | loopStops _ _ ih =>
    simp only [Task.nodes, Node.nodes_branch, Node.nodes_loop, List.forall_mem_cons,
      List.forall_mem_append] at hpure
    exact ih hpure.2.1
  -- the rounds to come run the same loop, so all that is known of it is needed again
  | loopAgain _ _ _ _ _ _ ih ihbody ihagain =>
    refine (ihagain hpure).trans ?_
    simp only [Task.nodes, Node.nodes_loop, List.forall_mem_cons, List.forall_mem_append] at hpure
    exact (ihbody hpure.2.2).trans (ih hpure.2.1)
  | next _ _ _ ih ihrest =>
    simp only [Task.nodes, Program.nodes_cons, List.forall_mem_append] at hpure
    exact (ihrest hpure.2).trans (ih hpure.1)
  | stops _ _ ih =>
    simp only [Task.nodes, Program.nodes_cons, List.forall_mem_append] at hpure
    exact ih hpure.1

def Restores (run : Machine → Run) : Prop := ∀ m o m', run m = some (o, m') → m' = m

namespace Restores
variable {run body : Machine → Run}

theorem of_task (limit : Nat) (task : Task) (hpure : ∀ n ∈ task.nodes, n.isDeclaration = false) :
    Restores (task.run limit) := by
  intro m o m' h
  obtain ⟨_, rfl, hruns⟩ := task.realizes limit m.scopes m.environment o m' h
  rw [hruns.environment_eq hpure]

theorem within (h : Restores body) (scope : Scope) : Restores (·.within scope body) := by
  intro m o m' hm
  obtain ⟨⟨o₁, m₁⟩, hbody, heq⟩ := Option.map_eq_some_iff.1 hm
  cases heq
  rw [h _ _ _ hbody, Machine.leave_enter]

end Restores

/-- A loop as it is run, together with how often it enters its body. -/
def countedWhile (condition body : Machine → Run) :
    Nat → Machine → Option (Nat × Outcome × Machine)
  | 0, _ => none
  | limit + 1, m =>
    match condition m with
    | none => none
    | some (o, m) =>
      match o.operand? with
      | none => some (0, o, m)
      | some v =>
        if v.isTrue then
          match body m with
          | none => none
          | some (.breaks, m) => some (1, .nothing, m)
          | some (.fails d, m) => some (1, .fails d, m)
          | some (_, m) => (countedWhile condition body limit m).map fun (k, r) => (k + 1, r)
        else some (0, .nothing, m)

theorem map_countedWhile (condition body : Machine → Run) (limit : Nat) (m : Machine) :
    (countedWhile condition body limit m).map Prod.snd = repeatWhile condition body limit m := by
  induction limit generalizing m with
  | zero => rfl
  | succ limit ih =>
    unfold countedWhile repeatWhile
    rcases condition m with _ | ⟨o, m₁⟩
    · rfl
    rw [Run.andThen_some]
    rcases hv : o.operand? with _ | v
    · simp only [hv, Option.map_some]
    by_cases htrue : v.isTrue = true
    · simp only [hv, if_pos htrue]
      rcases body m₁ with _ | ⟨o₁, m₂⟩
      · rfl
      cases o₁ with
      | breaks | fails => rfl
      | value | nothing | continues =>
        refine Eq.trans ?_ (ih m₂)
        simp only [Option.map_map]
        rfl
    · simp only [hv, if_neg htrue, Option.map_some]

def GoesRound (condition body : Machine → Run) (m : Machine) : Prop :=
  ∃ o m₁ v o₁ m₂, condition m = some (o, m₁) ∧ o.operand? = some v ∧ v.isTrue = true ∧
    body m₁ = some (o₁, m₂) ∧ o₁ ≠ .breaks ∧ ∀ d, o₁ ≠ .fails d

theorem GoesRound.countedWhile_eq_none {condition body : Machine → Run} {m : Machine}
    (h : GoesRound condition body m) (hcondition : Restores condition) (hbody : Restores body)
    (limit : Nat) : countedWhile condition body limit m = none := by
  obtain ⟨o, m₁, v, o₁, m₂, hheld, hv, htrue, hround, hbreaks, hfails⟩ := h
  -- the next round starts with the machine that this one started with
  obtain rfl : m₁ = m := hcondition _ _ _ hheld
  obtain rfl : m₂ = m₁ := hbody _ _ _ hround
  induction limit with
  | zero => rfl
  | succ limit ih =>
    unfold countedWhile
    simp only [hheld, hv, if_pos htrue, hround]
    cases o₁ with
    | breaks => exact absurd rfl hbreaks
    | fails d => exact absurd rfl (hfails d)
    | value | nothing | continues => rw [ih, Option.map_none]

theorem countedWhile_le_one {condition body : Machine → Run} (hcondition : Restores condition)
    (hbody : Restores body) {limit k : Nat} {m : Machine} {r : Outcome × Machine}
    (h : countedWhile condition body limit m = some (k, r)) : k ≤ 1 := by
  by_cases hround : GoesRound condition body m
  · rw [hround.countedWhile_eq_none hcondition hbody limit] at h
    cases h
  cases limit with
  | zero => cases h
  | succ limit =>
    unfold countedWhile at h
    rcases hheld : condition m with _ | ⟨o, m₁⟩ <;> simp only [hheld] at h
    · cases h
    rcases hv : o.operand? with _ | v <;> simp only [hv] at h
    · cases h
      exact Nat.zero_le 1
    by_cases htrue : v.isTrue = true
    · rw [if_pos htrue] at h
      rcases hentered : body m₁ with _ | ⟨o₁, m₂⟩ <;> simp only [hentered] at h
      · cases h
      -- all other outcomes would make the loop go round
      cases o₁ with
      | breaks | fails =>
        cases h
        exact Nat.le_refl 1
      | value | nothing | continues =>
        exact absurd ⟨o, m₁, v, _, m₂, hheld, hv, htrue, hentered, by simp, by simp⟩ hround
    · rw [if_neg htrue] at h
      cases h
      exact Nat.zero_le 1

theorem GoesRound.outlasts {condition condition' body body' : Machine → Run} {m : Machine}
    (h : GoesRound condition body m) (hcondition : ∀ m, Outlasts (condition' m) (condition m))
    (hbody : ∀ m, Outlasts (body' m) (body m)) : GoesRound condition' body' m := by
  obtain ⟨o, m₁, v, o₁, m₂, hheld, hv, htrue, hround, hends⟩ := h
  exact ⟨o, m₁, v, o₁, m₂, hcondition m _ hheld, hv, htrue, hbody m₁ _ hround, hends⟩

/-- A tree without declarations leaves the machine as it was, however it ends, and ends in the same
way when it is run again. If it is a loop, it enters its body once at most before it ends: once it
has gone round, with its condition true and no break or failure in its body, it never ends. -/
theorem pure_without_declarations :
    (∀ (n : Node) (limit : Nat) (m m' : Machine) (o : Outcome), n.DeclaresNothing →
      n.evaluate limit m = some (o, m') → m' = m ∧ n.evaluate limit m' = some (o, m')) ∧
    ∀ (condition : Node) (body : List Node) (s : Span),
      (Node.loop condition body s).DeclaresNothing → ∀ (limit : Nat) (m : Machine),
        (∀ r, (Node.loop condition body s).evaluate limit m = some r →
          ∃ k ≤ 1, countedWhile (condition.evaluate limit)
            (·.within .loop (evaluateAll limit body)) limit m = some (k, r)) ∧
        (GoesRound (condition.evaluate limit) (·.within .loop (evaluateAll limit body)) m →
          ∀ any, (Node.loop condition body s).evaluate any m = none) := by
  constructor
  · intro n limit m m' o hpure h
    obtain rfl : m' = m := Restores.of_task limit (.node n) hpure m o m' h
    exact ⟨rfl, h⟩
  intro condition body s hpure limit m
  simp only [Node.DeclaresNothing, Node.nodes_loop, List.forall_mem_cons,
    List.forall_mem_append] at hpure
  have hcondition (limit : Nat) : Restores (condition.evaluate limit) :=
    Restores.of_task limit (.node condition) hpure.2.1
  have hbody (limit : Nat) : Restores (·.within .loop (evaluateAll limit body)) :=
    (Restores.of_task limit (.body body) hpure.2.2).within .loop
  constructor
  · intro r hrun
    rw [Node.evaluate, ← map_countedWhile] at hrun
    obtain ⟨⟨k, _⟩, hcounted, rfl⟩ := Option.map_eq_some_iff.1 hrun
    exact ⟨k, countedWhile_le_one (hcondition limit) (hbody limit) hcounted, hcounted⟩
  · intro hround any
    -- one bound that is large enough for the round and for the run that would end
    have hlimit := Nat.le_max_left limit any
    have hmax := hround.outlasts (condition.evaluate_outlasts hlimit)
      (.within (evaluateAll_outlasts hlimit body) · .loop)
    have hnone : (Node.loop condition body s).evaluate (max limit any) m = none := by
      rw [Node.evaluate, ← map_countedWhile,
        hmax.countedWhile_eq_none (hcondition _) (hbody _), Option.map_none]
    refine Option.eq_none_iff_forall_ne_some.2 fun r hr => ?_
    have hsome := Node.evaluate_outlasts (Nat.le_max_right limit any) _ m r hr
    rw [hnone] at hsome
    cases hsome

/-- `while (1) { if (x) {} }` fails in its first round for the lack of `x`, and leaves everything as
it was. `while (1) {}` has gone round at once, and never ends. -/
theorem pure_of_two_loops :
    let one : Node := .literal ⟨.number, "1", some (.int 1), .nowhere⟩
    let x : Node := .access ⟨.identifier, "x", none, .nowhere⟩
    let failing : Node := .loop one [.branch x [] .nowhere] .nowhere
    let endless : Node := .loop one [] .nowhere
    let m := Machine.start .initial
    (failing.DeclaresNothing ∧ ∃ d, failing.evaluate 1 m = some (.fails d, m)) ∧
      (∃ d, ∃ k ≤ 1, countedWhile (one.evaluate 1)
        (·.within .loop (evaluateAll 1 [.branch x [] .nowhere])) 1 m = some (k, .fails d, m)) ∧
      endless.DeclaresNothing ∧ ∀ any, endless.evaluate any m = none := by
  intro one x failing endless m
  obtain ⟨hpure, hloop⟩ := pure_without_declarations
  have hfailing : failing.DeclaresNothing := by
    simp [Node.DeclaresNothing, failing, one, x]
  have hendless : endless.DeclaresNothing := by
    simp [Node.DeclaresNothing, endless, one]
  have hrun : failing.evaluate 1 m = some (.fails _, m) := rfl
  have hround : GoesRound (one.evaluate 0) (·.within .loop (evaluateAll 0 [])) m :=
    ⟨_, m, .number (.ofInt 1), .nothing, m, rfl, rfl, rfl, rfl, by simp, by simp⟩
  exact ⟨⟨hfailing, _, (hpure failing 1 m m _ hfailing hrun).2⟩,
    ⟨_, (hloop one _ .nowhere hfailing 1 m).1 _ hrun⟩, hendless,
    (hloop one [] .nowhere hendless 0 m).2 hround⟩

end Scriptlet
