import Scriptlet.Evaluation.Machine
import Scriptlet.Syntax.Node
import Scriptlet.Value.Operation

/-! The run of a syntax tree. Operands run from left to right, each once; a loop may go round
for ever, so a run is bounded by how often one loop may ask for its condition, and is given up
beyond that. -/

namespace Scriptlet

namespace Machine

def finish (m : Machine) (span : Span) (result : Except OperationError Value) : Run :=
  match result with
  | .ok v => some (.value v, m)
  | .error e => m.fail span e.message

def access (m : Machine) (name : String) (span : Span) : Run :=
  match m.environment.lookup? name with
  | some v => some (.value v, m)
  | none =>
    m.fail span s!"Variable '{name}' is not declared"
      (some s!"Declare it first: declare {name} = ...;")

def declare (m : Machine) (name : String) (value : Value) (span : Span) : Run :=
  match m.environment.declare name value false with
  | .ok env => some (.nothing, { m with environment := env })
  | .error e => m.fail span e.message

end Machine

def repeatWhile (condition body : Machine → Run) : Nat → Machine → Run
  | 0, _ => none
  | limit + 1, m =>
    (condition m).andThen fun v m =>
      if v.isTrue then
        match body m with
        | none => none
        | some (.breaks, m) => some (.nothing, m)
        | some (.fails d, m) => some (.fails d, m)
        | some (_, m) => repeatWhile condition body limit m
      else some (.nothing, m)

mutual

def Node.evaluate (limit : Nat) : Node → Machine → Run
  | .literal token, m =>
    match token.number? with
    | some x => some (.value (.number x), m)
    | none => m.fail token.span s!"Invalid number literal '{token.text}'"
  | .access name, m => m.access name.text name.span
  | .unary op operand span, m =>
    (operand.evaluate limit m).andThen fun v m => m.finish span (Value.unary op v)
  | .binary left op right span, m =>
    (left.evaluate limit m).andThen fun l m =>
      (right.evaluate limit m).andThen fun r m => m.finish span (Value.binary op l r)
  | .group inner _, m => inner.evaluate limit m
  | .declare name value span, m =>
    (value.evaluate limit m).andThen fun v m => m.declare name.text v span
  | .branch condition body _, m =>
    (condition.evaluate limit m).andThen fun v m =>
      if v.isTrue then m.within .branch (evaluateAll limit body) else some (.nothing, m)
  | .loop condition body _, m =>
    repeatWhile (condition.evaluate limit) (·.within .loop (evaluateAll limit body)) limit m
  | .breakLoop _, m => some (.breaks, m)
  | .continueLoop _, m => some (.continues, m)
  | .missing _, m => some (.value .null, m)

def evaluateAll (limit : Nat) : List Node → Machine → Run
  | [], m => some (.nothing, m)
  | statement :: rest, m =>
    (statement.evaluate limit m).andThen fun _ m => evaluateAll limit rest m

end
end Scriptlet
