import Scriptlet.Proofs.Evaluation.Blame

/-! Where in a tree an error is. Whatever a run fails with is about an occurrence of a node, and is
labelled with the blocks whose bodies hold that occurrence. The blocks are left again however the
run ends, so the next run on the same machine labels its errors as a new machine would. -/

namespace Scriptlet

/-- One node occurs in another, inside the blocks whose bodies hold the occurrence, the outermost
first. A condition is not inside its block. -/
inductive Occurs (x : Node) : List Scope → Node → Prop
  | self : Occurs x [] x
  | unary {blocks op n s} (h : Occurs x blocks n) : Occurs x blocks (.unary op n s)
  | left {blocks left op right s} (h : Occurs x blocks left) :
      Occurs x blocks (.binary left op right s)
  | right {blocks left op right s} (h : Occurs x blocks right) :
      Occurs x blocks (.binary left op right s)
  | group {blocks n s} (h : Occurs x blocks n) : Occurs x blocks (.group n s)
  | declare {blocks name n s} (h : Occurs x blocks n) : Occurs x blocks (.declare name n s)
  | branchCondition {blocks condition body s} (h : Occurs x blocks condition) :
      Occurs x blocks (.branch condition body s)
  | branchBody {blocks condition body n s} (hn : n ∈ body) (h : Occurs x blocks n) :
      Occurs x (.branch :: blocks) (.branch condition body s)
  | loopCondition {blocks condition body s} (h : Occurs x blocks condition) :
      Occurs x blocks (.loop condition body s)
  | loopBody {blocks condition body n s} (hn : n ∈ body) (h : Occurs x blocks n) :
      Occurs x (.loop :: blocks) (.loop condition body s)

def Task.trees : Task → List Node
  | node n => [n]
  | body ns => ns

/-- The node occurs in one of the trees, and the run would come to it inside the given scopes. -/
def Task.Holds (σ τ : List Scope) (task : Task) (x : Node) : Prop :=
  ∃ n ∈ task.trees, ∃ blocks, Occurs x blocks n ∧ τ = blocks.reverse ++ σ

namespace Task.Holds
variable {σ τ : List Scope} {n m x : Node} {body : List Node}

theorem imp (h : (Task.node n).Holds σ τ x) (hoccurs : ∀ blocks, Occurs x blocks n →
    Occurs x blocks m) : (Task.node m).Holds σ τ x := by
  obtain ⟨_, hmem, blocks, hx, rfl⟩ := h
  obtain rfl := List.mem_singleton.1 hmem
  exact ⟨m, List.mem_cons_self, blocks, hoccurs blocks hx, rfl⟩

theorem enter {scope : Scope} (h : (Task.body body).Holds (scope :: σ) τ x)
    (hoccurs : ∀ n ∈ body, ∀ blocks, Occurs x blocks n → Occurs x (scope :: blocks) m) :
    (Task.node m).Holds σ τ x := by
  obtain ⟨n, hn, blocks, hx, rfl⟩ := h
  refine ⟨m, List.mem_cons_self, scope :: blocks, hoccurs n hn blocks hx, ?_⟩
  rw [List.reverse_cons, List.append_assoc, List.singleton_append]

theorem head (h : (Task.node n).Holds σ τ x) : (Task.body (n :: body)).Holds σ τ x := by
  obtain ⟨_, hmem, hx⟩ := h
  obtain rfl := List.mem_singleton.1 hmem
  exact ⟨_, List.mem_cons_self, hx⟩

theorem tail (h : (Task.body body).Holds σ τ x) : (Task.body (n :: body)).Holds σ τ x := by
  obtain ⟨root, hroot, hx⟩ := h
  exact ⟨root, List.mem_cons_of_mem n hroot, hx⟩

end Task.Holds

theorem Visits.holds {σ τ : List Scope} {task : Task} {e : Environment} {x : Node}
    (h : Visits σ task e τ x) : task.Holds σ τ x := by
  induction h with
  | self => exact ⟨_, List.mem_cons_self, [], .self, rfl⟩
  | unary _ ih => exact ih.imp fun _ => .unary
  | left _ ih => exact ih.imp fun _ => .left
  | right _ _ _ ih => exact ih.imp fun _ => .right
  | group _ ih => exact ih.imp fun _ => .group
  | declare _ ih => exact ih.imp fun _ => .declare
  | branchCondition _ ih => exact ih.imp fun _ => .branchCondition
  | branchBody _ _ _ _ ih => exact ih.enter fun _ hn _ => .branchBody hn
  | loopCondition _ ih => exact ih.imp fun _ => .loopCondition
  | loopBody _ _ _ _ ih => exact ih.enter fun _ hn _ => .loopBody hn
  -- a later round is a run of the same tree inside the same blocks
  | loopAgain _ _ _ _ _ _ ih => exact ih
  | first _ ih => exact ih.head
  | later _ _ _ ih => exact ih.tail

def Node.isFallible : Node → Bool
  | literal _ | access _ | unary .. | binary .. | declare .. => true
  | _ => false

namespace Fault
variable {σ : List Scope} {n : Node} {d : Diagnostic}

theorem isFallible (h : Fault σ n d) : n.isFallible = true := by
  cases h <;> rfl

theorem span_eq (h : Fault σ n d) : d.span = n.span := by
  cases h <;> rfl

theorem context_eq (h : Fault σ n d) :
    d.context = String.intercalate " -> " (σ.reverse.map Scope.label) := by
  cases h <;> rfl

end Fault

def evaluateEach (limit : Nat) : List Node → Machine → Option (List Outcome × Machine)
  | [], m => some ([], m)
  | n :: ns, m =>
    match n.evaluate limit m with
    | none => none
    | some (o, m) => (evaluateEach limit ns m).map fun (os, m) => (o :: os, m)

def evaluateEachAnew (limit : Nat) :
    List Node → Environment → Option (List Outcome × Environment)
  | [], env => some ([], env)
  | n :: ns, env =>
    match n.evaluate limit (.start env) with
    | none => none
    | some (o, m) =>
      (evaluateEachAnew limit ns m.environment).map fun (os, env) => (o :: os, env)

theorem Node.evaluate_start {limit : Nat} {n : Node} {env : Environment} {o : Outcome}
    {m : Machine} (h : n.evaluate limit (.start env) = some (o, m)) :
    m = .start m.environment := by
  obtain ⟨env', rfl, -⟩ := n.realizes limit [] env o m h
  rfl

theorem evaluateEach_start (limit : Nat) (ns : List Node) (env : Environment) :
    evaluateEach limit ns (.start env) =
      (evaluateEachAnew limit ns env).map fun (os, env) => (os, .start env) := by
  induction ns generalizing env with
  | nil => rfl
  | cons n ns ih =>
    unfold evaluateEach evaluateEachAnew
    rcases hrun : n.evaluate limit (.start env) with _ | ⟨o, m⟩
    · rfl
    have hm : m = .start m.environment := n.evaluate_start hrun
    have hrest := ih m.environment
    rw [← hm] at hrest
    simp only [hrest, Option.map_map]
    rfl

/-- A run leaves the scopes as it found them, whatever it ends with. If it fails, there is an
occurrence of a literal, a name, an operation or a declaration with the place that the diagnostic
points at, and the label of the diagnostic is made of the scopes that the run started in and the
blocks whose bodies hold that occurrence. So trees that are run one after the other on one machine,
whatever they end with, end as they would each on a machine of its own. -/
theorem blame_and_reuse :
    (∀ (n : Node) (limit : Nat) (m m' : Machine) (o : Outcome),
      n.evaluate limit m = some (o, m') →
        m'.scopes = m.scopes ∧
        ∀ d, o = .fails d → ∃ x blocks, Occurs x blocks n ∧ x.isFallible = true ∧
          d.span = x.span ∧
          d.context = String.intercalate " -> " ((m.scopes.reverse ++ blocks).map Scope.label)) ∧
    ∀ (limit : Nat) (ns : List Node) (env : Environment),
      evaluateEach limit ns (.start env) =
        (evaluateEachAnew limit ns env).map fun (os, env) => (os, .start env) := by
  refine ⟨fun n limit m m' o h => ?_, evaluateEach_start⟩
  obtain ⟨env', rfl, hruns⟩ := n.realizes limit m.scopes m.environment o m' h
  refine ⟨rfl, fun d hd => ?_⟩
  obtain ⟨τ, x, hvisits, hfault⟩ := hruns.blames d hd
  obtain ⟨root, hroot, blocks, hoccurs, rfl⟩ := hvisits.holds
  obtain rfl := List.mem_singleton.1 hroot
  refine ⟨x, blocks, hoccurs, hfault.isFallible, hfault.span_eq, ?_⟩
  rw [hfault.context_eq, List.reverse_append, List.reverse_reverse]

/-- Inside a loop, `if (1) { while (x) {} }` fails for the lack of `x`, which is in the body of the
`if` and in the condition of the `while`. -/
theorem blame_of_loop_condition :
    let one : Node := .literal ⟨.number, "1", some (.int 1), .nowhere⟩
    let x : Node := .access ⟨.identifier, "x", none, ⟨⟨"s", 14, 0, 14⟩, ⟨"s", 15, 0, 15⟩⟩⟩
    let n : Node := .branch one [.loop x [] .nowhere] .nowhere
    let m : Machine := ⟨.initial, [.loop]⟩
    ∃ d, n.evaluate 1 m = some (.fails d, m) ∧
      d.context = "WhileStatement -> IfStatement" ∧
      ∃ y blocks, Occurs y blocks n ∧ y.isFallible = true ∧ d.span = y.span ∧
        d.context = String.intercalate " -> " ((m.scopes.reverse ++ blocks).map Scope.label) := by
  intro one x n m
  have hrun : n.evaluate 1 m = some (.fails _, m) := rfl
  exact ⟨_, hrun, rfl, (blame_and_reuse.1 n 1 m m _ hrun).2 _ rfl⟩

end Scriptlet
