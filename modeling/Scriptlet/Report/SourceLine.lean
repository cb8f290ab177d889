import Scriptlet.Text.Blank
import Scriptlet.Text.Width

/-! The lines of a text as a reader sees them. More characters end a line here than in the
count of positions: besides a line feed also a carriage return, with or without a line feed
after it, the vertical tab, the form feed, and the line and paragraph ends of Unicode. -/

namespace Scriptlet.Report

abbrev SourceLine := List Char

def endsLine (c : Char) (next : Option Char) : Bool :=
  if c = '\r' then next ≠ some '\n'
  else c ∈ ['\n', '\x0b', '\x0c', '\x85', '\u2028', '\u2029']

def sourceLines : List Char → List SourceLine
  | [] => []
  | c :: rest =>
    if endsLine c rest.head? then [c] :: sourceLines rest
    else
      match sourceLines rest with
      | [] => [[c]]
      | line :: lines => (c :: line) :: lines

def lengthOf (lines : List SourceLine) : Nat := lines.foldl (fun n line => n + line.length) 0

def locate : List SourceLine → Nat → Nat × Nat
  | [], index => (0, index)
  | line :: lines, index =>
    if index < line.length then (0, index)
    else
      let (number, column) := locate lines (index - line.length)
      (number + 1, column)

namespace SourceLine

def tabStop : Nat := 4

/-- What stands in a column: the characters shown there and the cells that they take. A tab
goes to the next tab stop, and any other whitespace is a space. -/
def cell (column : Nat) (c : Char) : List Char × Nat :=
  if c = '\t' then
    let n := tabStop - column % tabStop
    (List.replicate n ' ', n)
  else if Text.isWhitespace c then ([' '], 1)
  else ([c], Text.width c)

def cells (line : SourceLine) : List (List Char × Nat) :=
  (Text.trimRight line).mapIdx cell

def widths (line : SourceLine) (columns : Nat) : List Nat :=
  (line.cells.map Prod.snd ++ List.replicate columns 1).take columns

def width (line : SourceLine) (columns : Nat) : Nat := (line.widths columns).foldl (· + ·) 0

end SourceLine
end Scriptlet.Report
