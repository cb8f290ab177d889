/-! Reading files by name. Where the files are kept is left open: a program that reads files is
given a function from names to contents. -/

namespace Scriptlet

inductive FileError
  | notFound
  | isFolder
  | notFolder
  | invalidName
  | longName
  | invalidText
  | system (message : String)

namespace FileError

def message : FileError → String
  | notFound => "No such file or directory (os error 2)"
  | isFolder => "Is a directory (os error 21)"
  | notFolder => "Not a directory (os error 20)"
  | invalidName => "file name contained an unexpected NUL byte"
  | longName => "File name too long (os error 36)"
  | invalidText => "stream did not contain valid UTF-8"
  | system message => message

def isAbsence : FileError → Bool
  | notFound | notFolder | invalidName | longName => true
  | _ => false

end FileError

abbrev Files := String → Except FileError ByteArray

namespace Files

def readText (files : Files) (path : String) : Except FileError String := do
  match String.fromUTF8? (← files path) with
  | some text => .ok text
  | none => .error .invalidText

def holds (files : Files) (path : String) : Bool :=
  match files path with
  | .ok _ => true
  | .error e => !e.isAbsence

end Files
end Scriptlet
