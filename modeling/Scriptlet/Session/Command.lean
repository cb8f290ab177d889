import Scriptlet.Text.Blank

/-! What a line means that is typed at the prompt. -/

namespace Scriptlet

inductive Command
  | empty
  | help
  | clear
  | exit
  | loadFile (path : Option String)
  | source (text : String)
  deriving DecidableEq

namespace Command

def loadWord : List Char := "loadFile".toList

def loadPath? (line : List Char) : Option (Option String) :=
  if loadWord.isPrefixOf line then
    let rest := line.drop loadWord.length
    if rest.head?.all Text.isWhitespace then
      let path := Text.trim rest
      some (if path.isEmpty then none else some (String.ofList path))
    else none
  else none

def parse (line : String) : Command :=
  let trimmed := Text.trim line.toList
  match String.ofList trimmed with
  | "" => .empty
  | "help" => .help
  | "#cls" => .clear
  | "exit" => .exit
  | "quit" => .exit
  | text =>
    match loadPath? trimmed with
    | some path => .loadFile path
    | none => .source text

end Command
end Scriptlet
