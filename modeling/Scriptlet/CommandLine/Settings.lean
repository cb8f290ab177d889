import Scriptlet.Text.Similarity

/-! The command line: switches, at most one file, and what is wrong with a command line that
cannot be read. Arguments are read from left to right, and the first thing that settles the
matter wins. -/

namespace Scriptlet.CommandLine

inductive Switch
  | interactive | tokens | tree | noColor | verbose | help | version
  deriving DecidableEq

namespace Switch

def all : List Switch := [interactive, tokens, tree, noColor, verbose, help, version]

def name : Switch → String
  | interactive => "interactive"
  | tokens => "tokens"
  | tree => "tree"
  | noColor => "no-color"
  | verbose => "verbose"
  | help => "help"
  | version => "version"

def long (w : Switch) : String := s!"--{w.name}"

def short? : Switch → Option Char
  | interactive => some 'i'
  | verbose => some 'v'
  | help => some 'h'
  | version => some 'V'
  | _ => none

def ofName? (name : String) : Option Switch := all.find? (·.name = name)

def ofShort? (c : Char) : Option Switch := all.find? (·.short? = some c)

def isImmediate : Switch → Bool
  | help | version => true
  | _ => false

/-- The switch that was most likely meant, the last one of those that are equally likely. -/
def closest? (name : String) : Option Switch :=
  let likeness := fun w : Switch => Text.similarity name.toList w.name.toList
  all.foldl (fun best w =>
    if likeness w > 0.7 && best.all (likeness · ≤ likeness w) then some w else best) none

end Switch

structure Settings where
  file : Option String
  switches : List Switch

inductive UsageError
  /-- a letter that is no switch -/
  | unknownShort (c : Char)
  /-- a word that is no switch -/
  | unknownLong (name : String)
  /-- a second file -/
  | surplus (argument : String)
  | unexpectedValue (switch : Switch) (value : String)
  | repeated (switch : Switch)
  | emptyFile
  deriving DecidableEq

namespace UsageError

def message : UsageError → String
  | unknownShort c => s!"unexpected argument '-{c}' found"
  | unknownLong name => s!"unexpected argument '--{name}' found"
  | surplus argument => s!"unexpected argument '{argument}' found"
  | unexpectedValue switch value =>
    s!"unexpected value '{value}' for '{switch.long}' found; no more were expected"
  | repeated switch => s!"the argument '{switch.long}' cannot be used multiple times"
  | emptyFile => "a value is required for '[FILE]' but none was supplied"

def asFile (argument : String) : String :=
  s!"to pass '{argument}' as a value, use '-- {argument}'"

def tip? : UsageError → Option String
  | unknownShort c => some (asFile s!"-{c}")
  | unknownLong name =>
    match Switch.closest? name with
    | some w => some s!"a similar argument exists: '{w.long}'"
    | none => some (asFile s!"--{name}")
  | _ => none

def anyUsage : List String := ["[OPTIONS]", "[FILE]"]

def choice : String :=
  let switches := (Switch.all.filter (!·.isImmediate)).map Switch.long
  "<" ++ String.intercalate "|" ("FILE" :: switches) ++ ">"

def usage? (e : UsageError) (s : Settings) : Option (List String) :=
  match e with
  | emptyFile => none
  | unexpectedValue switch _ =>
    if s.switches.isEmpty then some [switch.long, "[FILE]"]
    else if switch.isImmediate then some [switch.long, choice]
    else some [choice]
  | unknownLong name =>
    let meant := ((Switch.closest? name).toList.filter (· ∉ s.switches)).map Switch.long
    let words := s.switches.map Switch.long ++ meant
    match s.file with
    | some _ => some (words ++ ["<FILE>"])
    | none => some (if words.isEmpty then anyUsage else words ++ ["[FILE]"])
  | _ => some anyUsage

def display (e : UsageError) (s : Settings) : String :=
  let tip := (e.tip?.map ("  tip: " ++ · ++ "\n\n")).getD ""
  let line := fun words => "Usage: " ++ String.intercalate " " ("tally" :: words) ++ "\n\n"
  let usage := ((e.usage? s).map line).getD ""
  s!"error: {e.message}\n\n{tip}{usage}For more information, try '--help'.\n"

end UsageError

inductive Halt
  | help
  | version
  | misuse (e : UsageError) (s : Settings)

namespace Settings

def none : Settings := ⟨.none, []⟩

def has (s : Settings) (w : Switch) : Bool := w ∈ s.switches

/-- The name of a file is looked at when the next switch is met, or at the end. -/
def checkFile (s : Settings) : Except Halt Unit :=
  if s.file = some "" then .error (.misuse .emptyFile s) else .ok ()

def turnOn (s : Settings) (w : Switch) : Except Halt Settings := do
  s.checkFile
  match w with
  | .help => .error .help
  | .version => .error .version
  | w =>
    if s.has w then .error (.misuse (.repeated w) s)
    else .ok { s with switches := s.switches ++ [w] }

def readShort (s : Settings) : List Char → Except Halt Settings
  | [] => .ok s
  | c :: rest =>
    match Switch.ofShort? c with
    | .none => .error (.misuse (.unknownShort c) s)
    | some w => do (← s.turnOn w).readShort rest

def readLong (s : Settings) (argument : List Char) : Except Halt Settings :=
  let name := String.ofList (argument.takeWhile (· ≠ '='))
  match Switch.ofName? name, argument.dropWhile (· ≠ '=') with
  | .none, _ => .error (.misuse (.unknownLong name) s)
  | some w, [] => s.turnOn w
  | some w, _ :: value => .error (.misuse (.unexpectedValue w (String.ofList value)) s)

def readFile (s : Settings) (argument : String) : Except Halt Settings :=
  match s.file with
  | .none => .ok { s with file := some argument }
  | some _ => .error (.misuse (.surplus argument) s)

def readAll (s : Settings) : List String → Except Halt Settings
  | [] => do
    s.checkFile
    .ok s
  | argument :: rest =>
    match argument.toList with
    | ['-', '-'] => do
      let s ← rest.foldlM readFile s
      s.checkFile
      .ok s
    | '-' :: '-' :: word => do (← s.readLong word).readAll rest
    | '-' :: c :: cs => do (← s.readShort (c :: cs)).readAll rest
    | _ => do (← s.readFile argument).readAll rest

end Settings
end Scriptlet.CommandLine
