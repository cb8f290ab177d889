import Scriptlet.CommandLine.Invoke

/-! The program itself: it fetches files and lines and writes transcripts out. What to do with
them is settled elsewhere. -/

namespace Scriptlet.Main

def fileError : IO.Error → FileError
  | .noFileOrDirectory .. => .notFound
  | .inappropriateType _ 21 _ => .isFolder
  | .inappropriateType .. => .notFolder
  | .invalidArgument _ 36 _ => .longName
  | e => .system (toString e)

def fetch (path : String) : IO (Except FileError ByteArray) := do
  if path.toList.contains '\x00' then return .error .invalidName
  try
    return .ok (← IO.FS.readBinFile path)
  catch e =>
    return .error (fileError e)

def fetchFor : Command → IO Files
  | .loadFile (some path) => do
    let content ← fetch path
    return fun _ => content
  | _ => return fun _ => .error .notFound

def write (t : Transcript) : IO Unit := do
  IO.print t.stdout
  (← IO.getStdout).flush
  IO.eprint t.stderr

/-- The bytes up to the next line feed, or up to the end of the input. -/
partial def nextLine (input : IO.FS.Stream) (line : ByteArray) : IO ByteArray := do
  let next ← input.read 1
  let line := line ++ next
  if next.isEmpty || next.toList = [Repl.lineFeed] then return line
  nextLine input line

partial def converse (display : DisplayOptions) (env : Environment) : IO Unit := do
  write (.print Repl.prompt)
  match String.fromUTF8? (← nextLine (← IO.getStdin) .empty) with
  | none => write Repl.unreadableInput
  | some "" => write (.print "\n")
  | some line =>
    let command := Command.parse line
    let files ← fetchFor command
    let some (after, answer) := Repl.perform Script.patience display files env command
      | return
    write answer
    if command ≠ .exit then converse display after

def session (display : DisplayOptions) (env : Environment) : IO Unit := do
  write (.print Repl.banner)
  converse display env

def finish (exit : CommandLine.Exit) (t : Transcript) : IO UInt32 := do
  write t
  return exit.code.toUInt32

def run (arguments : List String) : IO UInt32 := do
  match CommandLine.Settings.none.readAll arguments with
  | .error halt =>
    let (exit, t) := halt.answer
    finish exit t
  | .ok s =>
    let files ← fetchFor (.loadFile s.file)
    match CommandLine.opening Script.patience s files with
    | none => finish .failure {}
    | some (.done exit t) => finish exit t
    | some (.session env t) =>
      write t
      session s.display env
      finish .success {}

end Scriptlet.Main

def main (arguments : List String) : IO UInt32 := Scriptlet.Main.run arguments
