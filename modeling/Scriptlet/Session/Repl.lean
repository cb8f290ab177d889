import Scriptlet.Session.Command
import Scriptlet.Session.Script

/-! The interactive session. Each line is run as a program of its own, and the variables stay
from one line to the next. -/

namespace Scriptlet.Repl

def banner : String :=
  "Tally Interpreter v0.1.0\nType 'help' for commands, 'exit' to quit\n\n"

def prompt : String := "> "

def farewell : String := "Goodbye!\n"

def clearScreen : String := "\x1b[2J\x1b[1;1H"

def helpText : String :=
  "Commands:\n" ++
  "  help             Show this message\n" ++
  "  loadFile <path>  Run a script file in the current session\n" ++
  "  #cls             Clear the screen\n" ++
  "  exit, quit       Leave the interpreter\n" ++
  "\n" ++
  "Anything else is evaluated as source, e.g. `declare x = 2; x ^ 3;`\n"

def sourceName : String := "<stdin>"

def unreadableFile (path : String) (e : FileError) : Transcript :=
  .complain s!"Error reading file '{path}': {e.message}\n"

def unreadableInput : Transcript :=
  .complain s!"Error reading input: {FileError.invalidText.message}\n"

def perform (limit : Nat) (display : DisplayOptions) (files : Files) (env : Environment) :
    Command → Option (Environment × Transcript)
  | .empty => some (env, {})
  | .help => some (env, .print helpText)
  | .clear => some (env, .print clearScreen)
  | .exit => some (env, .print farewell)
  | .loadFile none => some (env, .complain "Usage: loadFile <path>\n")
  | .loadFile (some path) =>
    (Script.runFile limit display files path env).map fun
      | .ok ran => (ran.environment, ran.transcript)
      | .error e => (env, unreadableFile path e)
  | .source text =>
    (Script.run limit display sourceName text env).map fun ran => (ran.environment, ran.transcript)

def lineFeed : UInt8 := 10

def byteLines : List UInt8 → List (List UInt8)
  | [] => []
  | b :: rest =>
    if b = lineFeed then [] :: byteLines rest
    else
      match byteLines rest with
      | [] => [[b]]
      | line :: lines => (b :: line) :: lines

/-- The lines of an input, nothing for a line that is not text. -/
def inputLines (input : ByteArray) : List (Option String) :=
  (byteLines input.toList).map fun line => String.fromUTF8? ⟨line.toArray⟩

def converse (limit : Nat) (display : DisplayOptions) (files : Files) :
    List (Option String) → Environment → Option (Environment × Transcript)
  | [], env => some (env, .print (prompt ++ "\n"))
  | none :: _, env => some (env, .print prompt ++ unreadableInput)
  | some line :: lines, env => do
    let command := Command.parse line
    let (after, answer) ← perform limit display files env command
    if command = .exit then some (after, .print prompt ++ answer)
    else
      let (final, rest) ← converse limit display files lines after
      some (final, .print prompt ++ answer ++ rest)

def start (limit : Nat) (display : DisplayOptions) (files : Files) (lines : List (Option String))
    (env : Environment) : Option (Environment × Transcript) := do
  let (final, transcript) ← converse limit display files lines env
  some (final, .print banner ++ transcript)

end Scriptlet.Repl
