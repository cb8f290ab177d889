import Scriptlet.CommandLine.Settings
import Scriptlet.Session.Repl

/-! What the program does when it is started: it runs the file that is named, and talks with
its user if it is told to or if there is no file. -/

namespace Scriptlet.CommandLine

def versionText : String := "tally 0.1.0\n"

def helpText : String :=
  "A small scripting language with accumulated diagnostics\n" ++
  "\n" ++
  "Usage: tally [OPTIONS] [FILE]\n" ++
  "\n" ++
  "Arguments:\n" ++
  "  [FILE]  The script file to execute\n" ++
  "\n" ++
  "Options:\n" ++
  "  -i, --interactive  Start the REPL (after running FILE, if given)\n" ++
  "      --tokens       Print the token stream before evaluating\n" ++
  "      --tree         Print the syntax tree before evaluating\n" ++
  "      --no-color     Disable coloured diagnostics\n" ++
  "  -v, --verbose      Debug-level logging unless RUST_LOG says otherwise\n" ++
  "  -h, --help         Print help\n" ++
  "  -V, --version      Print version\n"

inductive Exit
  | success | failure | misuse
  deriving DecidableEq

namespace Exit

def code : Exit → Nat
  | success => 0
  | failure => 1
  | misuse => 2

end Exit

def Halt.answer : Halt → Exit × Transcript
  | .help => (.success, .print helpText)
  | .version => (.success, .print versionText)
  | .misuse e s => (.misuse, .complain (e.display s))

def Settings.display (s : Settings) : DisplayOptions :=
  ⟨s.has .tokens, s.has .tree, !s.has .noColor⟩

inductive Opening
  | done (exit : Exit) (transcript : Transcript)
  | session (env : Environment) (transcript : Transcript)

def missingFile (path : String) : Transcript := .complain s!"Error: File '{path}' not found\n"

def openFile (limit : Nat) (s : Settings) (files : Files) (path : String) : Option Opening :=
  if files.holds path then
    (Script.runFile limit s.display files path .initial).map fun
      | .error e => .done .failure (Repl.unreadableFile path e)
      | .ok ran =>
        if s.has .interactive then .session ran.environment ran.transcript
        else .done (if ran.evaluation.isOk then .success else .failure) ran.transcript
  else some (.done .failure (missingFile path))

def opening (limit : Nat) (s : Settings) (files : Files) : Option Opening :=
  match s.file with
  | none => some (.session .initial {})
  | some path => openFile limit s files path

def invoke (limit : Nat) (arguments : List String) (files : Files)
    (lines : List (Option String)) : Option (Exit × Transcript) :=
  match Settings.none.readAll arguments with
  | .error halt => some halt.answer
  | .ok s => do
    match ← opening limit s files with
    | .done exit transcript => some (exit, transcript)
    | .session env transcript =>
      let (_, rest) ← Repl.start limit s.display files lines env
      some (.success, transcript ++ rest)

end Scriptlet.CommandLine
