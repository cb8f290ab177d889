import Scriptlet.Evaluation.Evaluate
import Scriptlet.Syntax.Parse

/-! The run of a whole program: the values of its statements in order, up to the first that
fails. A program with defects is not run at all. -/

namespace Scriptlet

structure Evaluation where
  values : List Value
  diagnostics : List Diagnostic

namespace Evaluation

def isOk (e : Evaluation) : Bool := e.diagnostics.isEmpty

def firstError? (e : Evaluation) : Option Diagnostic := e.diagnostics.head?

end Evaluation

namespace Machine

def straySignal (m : Machine) (word : Keyword) (span : Span) : Diagnostic :=
  m.diagnostic span s!"'{word.text}' used outside of a loop"
    (some "'break' and 'continue' are only meaningful inside a 'while' body.")

end Machine

namespace Program

def run (limit : Nat) (p : Program) (m : Machine) : Option (Evaluation × Machine) :=
  match p with
  | [] => some (⟨[], []⟩, m)
  | statement :: rest =>
    match statement.evaluate limit m with
    | none => none
    | some (.value v, m) =>
      (run limit rest m).map fun (later, m) => ({ later with values := v :: later.values }, m)
    | some (.nothing, m) => run limit rest m
    | some (.breaks, m) => some (⟨[], [m.straySignal .breakWord statement.span]⟩, m)
    | some (.continues, m) => some (⟨[], [m.straySignal .continueWord statement.span]⟩, m)
    | some (.fails d, m) => some (⟨[], [d]⟩, m)

end Program

namespace Parsed

def evaluate (limit : Nat) (p : Parsed) (env : Environment) :
    Option (Evaluation × Environment) :=
  if p.diagnostics.isEmpty then
    (p.program.run limit (.start env)).map fun (e, m) => (e, m.environment)
  else some (⟨[], p.diagnostics⟩, env)

end Parsed

def evaluateText (limit : Nat) (source text : String) (env : Environment) :
    Option (Evaluation × Environment) :=
  (parseText source text).evaluate limit env

end Scriptlet
