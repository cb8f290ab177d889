import Scriptlet.Diagnostic
import Scriptlet.Environment

/-! What changes while a program runs, and how the run of a part of it can end. -/

namespace Scriptlet

inductive Scope
  | branch | loop
  deriving DecidableEq

namespace Scope

def label : Scope → String
  | branch => "IfStatement"
  | loop => "WhileStatement"

end Scope

/-- The innermost scope comes first. -/
structure Machine where
  environment : Environment
  scopes : List Scope

inductive Outcome
  | value (v : Value)
  | nothing
  | breaks
  | continues
  | fails (d : Diagnostic)

namespace Outcome

def isSignal : Outcome → Bool
  | breaks | continues => true
  | _ => false

end Outcome

/-- How a run ended and what it left behind; nothing if it was given up before its end. -/
abbrev Run := Option (Outcome × Machine)

namespace Machine

def start (env : Environment) : Machine := ⟨env, []⟩

def context (m : Machine) : String :=
  String.intercalate " -> " (m.scopes.reverse.map Scope.label)

def diagnostic (m : Machine) (span : Span) (message : String) (help : Option String) :
    Diagnostic :=
  { kind := .runtimeError, span, message, context := m.context, help }

def fail (m : Machine) (span : Span) (message : String) (help : Option String := none) : Run :=
  some (.fails (m.diagnostic span message help), m)

def enter (m : Machine) (scope : Scope) : Machine := { m with scopes := scope :: m.scopes }

def leave (m : Machine) : Machine := { m with scopes := m.scopes.tail }

theorem leave_enter (m : Machine) (scope : Scope) : (m.enter scope).leave = m := rfl

def within (m : Machine) (scope : Scope) (body : Machine → Run) : Run :=
  (body (m.enter scope)).map fun (outcome, after) => (outcome, after.leave)

end Machine

namespace Run

/-- Goes on with the value of a run, which is null if it has none. A signal or a failure ends
the whole. -/
def andThen (run : Run) (next : Value → Machine → Run) : Run :=
  match run with
  | none => none
  | some (.value v, m) => next v m
  | some (.nothing, m) => next .null m
  | some (outcome, m) => some (outcome, m)

end Run
end Scriptlet
