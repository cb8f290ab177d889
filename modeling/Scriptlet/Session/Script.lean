import Scriptlet.Evaluation.Program
import Scriptlet.Files.Basic
import Scriptlet.Report.Layout
import Scriptlet.Syntax.Outline

/-! Running a script for a reader: what is printed, and what is reported as wrong. -/

namespace Scriptlet

structure Transcript where
  stdout : String := ""
  stderr : String := ""

namespace Transcript

instance : Append Transcript := ⟨fun a b => ⟨a.stdout ++ b.stdout, a.stderr ++ b.stderr⟩⟩

def print (text : String) : Transcript := { stdout := text }

def complain (text : String) : Transcript := { stderr := text }

end Transcript

structure DisplayOptions where
  showTokens : Bool
  showTree : Bool
  color : Bool

structure Ran where
  evaluation : Evaluation
  environment : Environment
  transcript : Transcript

namespace Script

def lines (texts : List String) : String := String.join (texts.map (· ++ "\n"))

/-- A bound for runs that somebody waits for. No loop that asks for its condition so often is
seen to end. -/
def patience : Nat := Decimal.tenTo 18

def run (limit : Nat) (display : DisplayOptions) (source text : String) (env : Environment) :
    Option Ran := do
  let lexed := lex source text
  let parsed := parse lexed.tokens lexed.diagnostics
  let (evaluation, after) ← parsed.evaluate limit env
  let tokens := if display.showTokens then lines (lexed.tokens.map Token.display) else ""
  let tree := if display.showTree then Program.tree parsed.program else ""
  let values := lines (evaluation.values.map Value.display)
  let sourceLines := Report.sourceLines text.toList
  let reports := evaluation.diagnostics.map (·.reportOn sourceLines display.color)
  some ⟨evaluation, after, ⟨tokens ++ tree ++ values, String.join reports⟩⟩

def runFile (limit : Nat) (display : DisplayOptions) (files : Files) (path : String)
    (env : Environment) : Option (Except FileError Ran) :=
  match files.readText path with
  | .error e => some (.error e)
  | .ok text => (run limit display path text env).map .ok

end Script
end Scriptlet
