import Scriptlet.Proofs.Evaluation.Semantics
import Scriptlet.Proofs.Syntax.Recovery

/-! Where a run comes to and what goes wrong there. Whatever a run fails with was wrong with a node
that it came to, and is told about inside the blocks that the run had entered by then. -/

namespace Scriptlet

/-- The run of a task comes to a node, inside the blocks that stand before the node. -/
inductive Visits : List Scope → Task → Environment → List Scope → Node → Prop
  | self {σ n e} : Visits σ (.node n) e σ n
  | unary {σ op n s e τ m} (h : Visits σ (.node n) e τ m) : Visits σ (.node (.unary op n s)) e τ m
  | left {σ left op right s e τ m} (h : Visits σ (.node left) e τ m) :
      Visits σ (.node (.binary left op right s)) e τ m
  | right {σ left op right s e e₁ o l τ m} (hleft : Runs σ (.node left) e o e₁)
      (hl : o.operand? = some l) (h : Visits σ (.node right) e₁ τ m) :
      Visits σ (.node (.binary left op right s)) e τ m
  | group {σ n s e τ m} (h : Visits σ (.node n) e τ m) : Visits σ (.node (.group n s)) e τ m
  | declare {σ name n s e τ m} (h : Visits σ (.node n) e τ m) :
      Visits σ (.node (.declare name n s)) e τ m
  | branchCondition {σ condition body s e τ m} (h : Visits σ (.node condition) e τ m) :
      Visits σ (.node (.branch condition body s)) e τ m
  | branchBody {σ condition body s e e₁ o v τ m} (hcondition : Runs σ (.node condition) e o e₁)
      (hv : o.operand? = some v) (htrue : v.isTrue = true)
      (h : Visits (.branch :: σ) (.body body) e₁ τ m) :
      Visits σ (.node (.branch condition body s)) e τ m
  | loopCondition {σ condition body s e τ m} (h : Visits σ (.node condition) e τ m) :
      Visits σ (.node (.loop condition body s)) e τ m
  | loopBody {σ condition body s e e₁ o v τ m} (hcondition : Runs σ (.node condition) e o e₁)
      (hv : o.operand? = some v) (htrue : v.isTrue = true)
      (h : Visits (.loop :: σ) (.body body) e₁ τ m) :
      Visits σ (.node (.loop condition body s)) e τ m
  | loopAgain {σ condition body s e e₁ e₂ o v o₁ τ m}
      (hcondition : Runs σ (.node condition) e o e₁) (hv : o.operand? = some v)
      (htrue : v.isTrue = true) (hbody : Runs (.loop :: σ) (.body body) e₁ o₁ e₂)
      (ho₁ : o₁ = .nothing ∨ o₁ = .continues)
      (h : Visits σ (.node (.loop condition body s)) e₂ τ m) :
      Visits σ (.node (.loop condition body s)) e τ m
  | first {σ n ns e τ m} (h : Visits σ (.node n) e τ m) : Visits σ (.body (n :: ns)) e τ m
  | later {σ n ns e e₁ o v τ m} (hn : Runs σ (.node n) e o e₁) (hv : o.operand? = some v)
      (h : Visits σ (.body ns) e₁ τ m) : Visits σ (.body (n :: ns)) e τ m

def Task.nodes : Task → List Node
  | node n => n.nodes
  | body ns => Program.nodes ns

theorem Visits.mem_nodes {σ τ : List Scope} {task : Task} {e : Environment} {m : Node}
    (h : Visits σ task e τ m) : m ∈ task.nodes := by
  induction h with
  | self => exact Node.self_mem_nodes _
  | unary _ ih | group _ ih | declare _ ih =>
    simp only [Task.nodes, Node.nodes_unary, Node.nodes_group, Node.nodes_declare]
    exact List.mem_cons_of_mem _ ih
  | left _ ih =>
    simp only [Task.nodes, Node.nodes_binary]
    exact List.mem_cons_of_mem _ (List.mem_append_left _ ih)
  | right _ _ _ ih =>
    simp only [Task.nodes, Node.nodes_binary]
    exact List.mem_cons_of_mem _ (List.mem_append_right _ ih)
  | branchCondition _ ih | loopCondition _ ih =>
    simp only [Task.nodes, Node.nodes_branch, Node.nodes_loop]
    exact List.mem_cons_of_mem _ (List.mem_append_left _ ih)
  | branchBody _ _ _ _ ih | loopBody _ _ _ _ ih =>
    simp only [Task.nodes, Node.nodes_branch, Node.nodes_loop]
    exact List.mem_cons_of_mem _ (List.mem_append_right _ ih)
  | loopAgain _ _ _ _ _ _ ih => exact ih
  | first _ ih =>
    simp only [Task.nodes, Program.nodes_cons]
    exact List.mem_append_left _ ih
  | later _ _ _ ih =>
    simp only [Task.nodes, Program.nodes_cons]
    exact List.mem_append_right _ ih

inductive Fault (σ : List Scope) : Node → Diagnostic → Prop
  | literal {token} (h : token.number? = none) :
      Fault σ (.literal token)
        (runtimeError σ token.span s!"Invalid number literal '{token.text}'")
  | access {name} :
      Fault σ (.access name)
        (runtimeError σ name.span s!"Variable '{name.text}' is not declared"
          (some s!"Declare it first: declare {name.text} = ...;"))
  | unary {op n s} (error : OperationError) :
      Fault σ (.unary op n s) (runtimeError σ s error.message)
  | binary {left op right s} (error : OperationError) :
      Fault σ (.binary left op right s) (runtimeError σ s error.message)
  | declare {name n s} (error : DeclareError) :
      Fault σ (.declare name n s) (runtimeError σ s error.message)

theorem OperationError.message_not_invalid (error : OperationError) :
    ¬ "Invalid number literal".toList <+: error.message.toList := by
  unfold message
  cases error <;> simp [toString]

theorem DeclareError.message_not_invalid (error : DeclareError) :
    ¬ "Invalid number literal".toList <+: error.message.toList := by
  unfold message
  simp [toString]

namespace Fault
variable {σ : List Scope} {n : Node} {d : Diagnostic}

theorem kind (h : Fault σ n d) : d.kind = .runtimeError := by
  cases h <;> rfl

theorem of_opensWith (h : Fault σ n d) (hd : d.OpensWith "Invalid number literal") :
    ∃ token, n = .literal token ∧ token.number? = none := by
  cases h with
  | @literal token h => exact ⟨token, rfl, h⟩
  | access =>
    refine absurd hd ?_
    simp [Diagnostic.OpensWith, runtimeError, toString]
  | unary error | binary error => exact absurd hd error.message_not_invalid
  | declare error => exact absurd hd error.message_not_invalid

end Fault

/-- The diagnostic tells of a fault of a node that the run of the task comes to. -/
def Blames (σ : List Scope) (task : Task) (e : Environment) (d : Diagnostic) : Prop :=
  ∃ τ m, Visits σ task e τ m ∧ Fault τ m d

theorem Blames.imp {σ σ' : List Scope} {task task' : Task} {e e' : Environment} {d : Diagnostic}
    (h : Blames σ task e d) (hvisits : ∀ τ m, Visits σ task e τ m → Visits σ' task' e' τ m) :
    Blames σ' task' e' d := by
  obtain ⟨τ, m, hm, hd⟩ := h
  exact ⟨τ, m, hvisits τ m hm, hd⟩

theorem Runs.blames {σ : List Scope} {task : Task} {e e' : Environment} {o : Outcome}
    (h : Runs σ task e o e') : ∀ d, o = .fails d → Blames σ task e d := by
  induction h with
  | literal | access | unary | binary | declare | branchSkips | loopBreaks | loopEnds | breakLoop
  | continueLoop | missing | done => exact nofun
  | invalid h =>
    rintro d ⟨⟩
    exact ⟨_, _, .self, .literal h⟩
  | undeclared =>
    rintro d ⟨⟩
    exact ⟨_, _, .self, .access⟩
  | unaryFails =>
    rintro d ⟨⟩
    exact ⟨_, _, .self, .unary _⟩
  | binaryFails =>
    rintro d ⟨⟩
    exact ⟨_, _, .self, .binary _⟩
  | declareFails =>
    rintro d ⟨⟩
    exact ⟨_, _, .self, .declare _⟩
  | unaryStops _ _ ih => exact fun d hd => (ih d hd).imp fun _ _ => .unary
  | leftStops _ _ ih => exact fun d hd => (ih d hd).imp fun _ _ => .left
  | rightStops hleft hl _ _ _ ih => exact fun d hd => (ih d hd).imp fun _ _ => .right hleft hl
  | group _ ih => exact fun d hd => (ih d hd).imp fun _ _ => .group
  | declareStops _ _ ih => exact fun d hd => (ih d hd).imp fun _ _ => .declare
  | branch h hv htrue _ _ ih => exact fun d hd => (ih d hd).imp fun _ _ => .branchBody h hv htrue
  | branchStops _ _ ih => exact fun d hd => (ih d hd).imp fun _ _ => .branchCondition
  | loopAgain h hv htrue hbody ho₁ _ _ _ ih =>
    exact fun d hd => (ih d hd).imp fun _ _ => .loopAgain h hv htrue hbody ho₁
  | loopFails h hv htrue _ _ ih =>
    exact fun d hd => (ih d hd).imp fun _ _ => .loopBody h hv htrue
  | loopStops _ _ ih => exact fun d hd => (ih d hd).imp fun _ _ => .loopCondition
  | next h hv _ _ ih => exact fun d hd => (ih d hd).imp fun _ _ => .later h hv
  | stops _ _ ih => exact fun d hd => (ih d hd).imp fun _ _ => .first

end Scriptlet
