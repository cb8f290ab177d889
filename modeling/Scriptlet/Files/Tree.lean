import Scriptlet.Files.Basic

/-! A tree of files held as a list, and how a name is followed through it. A folder exists if a
file lies in it, or if it lies on the way to the folder where names start. Names are followed
step by step, so that what stands before `..` must exist. -/

namespace Scriptlet

/-- Files by the steps that lead to them from the root. Names start at the root if they begin
with a slash, and else at `start`. -/
structure FileTree where
  files : List (List String × ByteArray)
  start : List String

namespace FileTree

inductive Entry
  | file (content : ByteArray)
  | folder

def steps (path : String) : List String := path.splitOn "/"

def isStay (step : String) : Bool := step = "" || step = "."

def ofList (start : List String) (files : List (String × ByteArray)) : FileTree :=
  ⟨files.map fun (path, content) => (start ++ (steps path).filter (!isStay ·), content), start⟩

def entry? (tree : FileTree) (place : List String) : Option Entry :=
  match tree.files.find? (·.1 = place) with
  | some (_, content) => some (.file content)
  | none =>
    if (tree.start :: tree.files.map (·.1)).any place.isPrefixOf then some .folder else none

def maxStepBytes : Nat := 255

def maxPathBytes : Nat := 4095

/-- Follows the steps from a folder, which is given by its own steps, the last one first. The
root is the folder above itself. -/
def follow (tree : FileTree) : List String → List String → Except FileError Entry
  | _, [] => .ok .folder
  | here, step :: rest =>
    if isStay step then follow tree here rest
    else if step = ".." then follow tree here.tail rest
    else if maxStepBytes < step.utf8ByteSize then .error .longName
    else
      match tree.entry? (step :: here).reverse with
      | none => .error .notFound
      | some .folder => follow tree (step :: here) rest
      | some (.file content) => if rest.isEmpty then .ok (.file content) else .error .notFolder

def read (tree : FileTree) : Files := fun path =>
  if path.toList.contains '\x00' then .error .invalidName
  else if path.isEmpty then .error .notFound
  else if maxPathBytes < path.utf8ByteSize then .error .longName
  else
    let origin := if path.toList.head? = some '/' then [] else tree.start.reverse
    match tree.follow origin (steps path) with
    | .ok (.file content) => .ok content
    | .ok .folder => .error .isFolder
    | .error e => .error e

end FileTree
end Scriptlet
