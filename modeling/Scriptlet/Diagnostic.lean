import Scriptlet.Source.Span

/-! What is told about a defect of a program: its kind, where it is, what is wrong, in which
blocks it happened, and what may help. -/

namespace Scriptlet

inductive DiagnosticKind
  | illegalCharacter | expectedCharacter | expectedToken | runtimeError
  deriving DecidableEq

namespace DiagnosticKind

def title : DiagnosticKind → String
  | illegalCharacter => "Illegal Character"
  | expectedCharacter => "Expected Character"
  | expectedToken => "Expected Token"
  | runtimeError => "Runtime Error"

end DiagnosticKind

structure Diagnostic where
  kind : DiagnosticKind
  span : Span
  message : String
  context : String := ""
  help : Option String := none

namespace Diagnostic

def note? (d : Diagnostic) : Option String :=
  if d.context = "" then none else some s!"Context -> {d.context}"

def display (d : Diagnostic) : String :=
  let head := s!"{d.kind.title}: {d.message}"
  match d.note? with
  | none => head
  | some note => s!"{head}\n{note}"

end Diagnostic
end Scriptlet
