import Scriptlet.Evaluation.Program
import Scriptlet.Proofs.Syntax.Relocation

/-! The run of a moved tree. Places are only told about, never asked for, so a program that is
moved runs as before and its diagnostics move with it. -/

namespace Scriptlet

variable (f : Position → Position)

def Diagnostic.relocate (d : Diagnostic) : Diagnostic := { d with span := d.span.relocate f }

def Outcome.relocate : Outcome → Outcome
  | fails d => fails (d.relocate f)
  | outcome => outcome

def Evaluation.relocate (e : Evaluation) : Evaluation :=
  { e with diagnostics := e.diagnostics.map (Diagnostic.relocate f) }

namespace Run

def relocate (run : Run) : Run := run.map fun (outcome, m) => (outcome.relocate f, m)

variable {f}

theorem andThen_relocate (run : Run) {next next' : Value → Machine → Run}
    (hnext : ∀ v m, next' v m = (next v m).relocate f) :
    (run.relocate f).andThen next' = (run.andThen next).relocate f := by
  rcases run with _ | ⟨outcome, m⟩
  · rfl
  cases outcome with
  | value v => exact hnext v m
  | nothing => exact hnext .null m
  | breaks | continues | fails => rfl

theorem within_relocate {body body' : Machine → Run} (hbody : ∀ m, body' m = (body m).relocate f)
    (m : Machine) (scope : Scope) :
    m.within scope body' = (m.within scope body).relocate f := by
  simp only [Machine.within, hbody, relocate, Option.map_map]
  rfl

theorem repeatWhile_relocate {condition condition' body body' : Machine → Run}
    (hcondition : ∀ m, condition' m = (condition m).relocate f)
    (hbody : ∀ m, body' m = (body m).relocate f) (rounds : Nat) (m : Machine) :
    repeatWhile condition' body' rounds m = (repeatWhile condition body rounds m).relocate f := by
  induction rounds generalizing m with
  | zero => rfl
  | succ rounds ih =>
    rw [repeatWhile, repeatWhile, hcondition]
    refine andThen_relocate _ fun v m => ?_
    by_cases hv : v.isTrue
    · simp only [if_pos hv]
      rw [hbody]
      rcases body m with _ | ⟨outcome, m⟩
      · rfl
      cases outcome with
      | value | nothing | continues => exact ih m
      | breaks | fails => rfl
    · simp only [if_neg hv]
      rfl

theorem finish_relocate (m : Machine) (s : Span) (result : Except OperationError Value) :
    m.finish (s.relocate f) result = relocate f (m.finish s result) := by
  cases result <;> rfl

theorem declare_relocate (m : Machine) (name : String) (v : Value) (s : Span) :
    m.declare name v (s.relocate f) = relocate f (m.declare name v s) := by
  unfold Machine.declare
  cases m.environment.declare name v false <;> rfl

theorem access_relocate (m : Machine) (name : String) (s : Span) :
    m.access name (s.relocate f) = relocate f (m.access name s) := by
  unfold Machine.access
  cases m.environment.lookup? name <;> rfl

end Run

mutual

theorem Node.evaluate_relocate (limit : Nat) :
    ∀ (n : Node) (m : Machine), (n.relocate f).evaluate limit m = (n.evaluate limit m).relocate f
  | .literal token, m => by
    have hnumber : (token.relocate f).number? = token.number? := rfl
    rw [Node.relocate, Node.evaluate, Node.evaluate, hnumber]
    cases token.number? <;> rfl
  | .access _, m => Run.access_relocate m _ _
  | .unary _ operand _, m => by
    rw [Node.relocate, Node.evaluate, Node.evaluate, operand.evaluate_relocate limit]
    exact Run.andThen_relocate _ fun _ m => Run.finish_relocate m _ _
  | .binary left _ right _, m => by
    rw [Node.relocate, Node.evaluate, Node.evaluate, left.evaluate_relocate limit]
    refine Run.andThen_relocate _ fun _ m => ?_
    rw [right.evaluate_relocate limit]
    exact Run.andThen_relocate _ fun _ m => Run.finish_relocate m _ _
  | .group inner _, m => inner.evaluate_relocate limit m
  | .declare _ value _, m => by
    rw [Node.relocate, Node.evaluate, Node.evaluate, value.evaluate_relocate limit]
    exact Run.andThen_relocate _ fun _ m => Run.declare_relocate m _ _ _
  | .branch condition body _, m => by
    rw [Node.relocate, Node.evaluate, Node.evaluate, condition.evaluate_relocate limit]
    refine Run.andThen_relocate _ fun v m => ?_
    by_cases hv : v.isTrue
    · simp only [if_pos hv]
      exact Run.within_relocate (evaluateAll_relocate limit body) m .branch
    · simp only [if_neg hv]
      rfl
  | .loop condition body _, m => by
    rw [Node.relocate, Node.evaluate, Node.evaluate]
    exact Run.repeatWhile_relocate (condition.evaluate_relocate limit)
      (Run.within_relocate (evaluateAll_relocate limit body) · .loop) limit m
  | .breakLoop _, _ | .continueLoop _, _ | .missing _, _ => rfl

theorem evaluateAll_relocate (limit : Nat) :
    ∀ (ns : List Node) (m : Machine),
      evaluateAll limit (relocateAll f ns) m = (evaluateAll limit ns m).relocate f
  | [], _ => rfl
  | n :: ns, m => by
    rw [relocateAll, evaluateAll, evaluateAll, n.evaluate_relocate limit]
    exact Run.andThen_relocate _ fun _ m => evaluateAll_relocate limit ns m

end

theorem Program.run_relocate (limit : Nat) (p : Program) (m : Machine) :
    Program.run limit (p.map (Node.relocate f)) m =
      (p.run limit m).map fun (e, m) => (e.relocate f, m) := by
  induction p generalizing m with
  | nil => rfl
  | cons n ns ih =>
    rw [List.map_cons, run, run, n.evaluate_relocate f limit]
    rcases n.evaluate limit m with _ | ⟨outcome, m⟩
    · rfl
    cases outcome with
    | value v =>
      simp only [Run.relocate, Outcome.relocate, Option.map_some, ih, Option.map_map]
      rfl
    | nothing => exact ih m
    | breaks | continues =>
      simp only [Run.relocate, Outcome.relocate, Option.map_some, Node.span_relocate]
      rfl
    | fails d => rfl

end Scriptlet
