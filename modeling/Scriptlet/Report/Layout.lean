import Scriptlet.Report.Ink
import Scriptlet.Report.SourceLine

/-! The report of a diagnostic against the source text. Under a title and the place of the
defect it shows the line of the defect with the message below it, or, if the defect goes over
several lines, the first and the last of them, and then any help and the enclosing blocks. -/

namespace Scriptlet.Report

structure Extent where
  lines : List SourceLine
  first : Nat
  stop : Nat
  firstLine : Nat
  firstColumn : Nat
  lastLine : Nat

namespace Extent

def ofRange (lines : List SourceLine) (range : Nat × Nat) : Extent :=
  let (firstLine, firstColumn) := locate lines range.1
  { lines
    first := range.1
    stop := range.2
    firstLine
    firstColumn
    lastLine := (locate lines (range.2 - 1)).1 }

def line (e : Extent) (number : Nat) : SourceLine := e.lines.getD number []

def lineStart (e : Extent) (number : Nat) : Nat := lengthOf (e.lines.take number)

def numberWidth (e : Extent) : Nat := (Nat.toDigits 10 (e.lastLine + 1)).length

end Extent

def header (kind : DiagnosticKind) (message : String) : Row :=
  [⟨.title, "Error:"⟩, ⟨.plain, " "⟩, ⟨.label kind, kind.title⟩, ⟨.plain, s!": {message}"⟩]

def location (e : Extent) (source : String) : String :=
  s!"{source}:{e.firstLine + 1}:{e.firstColumn + 1}"

def place (e : Extent) (source : String) : List Row :=
  let indent := blanks (e.numberWidth + 2)
  let corner : Row := [⟨.margin, "╭"⟩, ⟨.margin, "─"⟩]
  let here : Row := [⟨.margin, "["⟩, ⟨.plain, location e source⟩, ⟨.margin, "]"⟩]
  [indent ++ corner ++ here,
    indent ++ [⟨.margin, "│"⟩]]

def numbered (e : Extent) (number : Nat) (row : Row) : Row :=
  let digits := toString (number + 1)
  let padding := String.ofList (List.replicate (e.numberWidth - digits.length) ' ')
  [⟨.plain, " "⟩, ⟨.margin, s!"{padding}{digits} │"⟩, ⟨.plain, " "⟩] ++ row

def unnumbered (e : Extent) (bar : String) (row : Row) : Row :=
  let padding := String.ofList (List.replicate (e.numberWidth + 1) ' ')
  [⟨.plain, " "⟩, ⟨.faintMargin, s!"{padding}{bar}"⟩, ⟨.plain, " "⟩] ++ row

def sourceRow (e : Extent) (ink : Ink) (number : Nat) : Row :=
  let start := e.lineStart number
  let inks := fun column =>
    if e.first ≤ start + column && start + column < e.stop then ink else .source
  ((e.line number).cells.mapIdx fun column cell =>
    cell.1.map fun c => ⟨inks column, c.toString⟩).flatten

def markedRow (widths : List Nat) (ink : Ink) (mark : Nat) (sign : String)
    (filled : Nat → Bool) : Row :=
  (widths.mapIdx fun column width =>
    if column = mark then
      match width with
      | 0 => []
      | n + 1 => ⟨ink, sign⟩ :: dashes ink n
    else if filled column then dashes ink width
    else blanks width).flatten

def withinLine (e : Extent) (ink : Ink) (message : String) : List Row :=
  let start := e.first - e.firstColumn
  let widths := (e.line e.firstLine).widths (e.stop - start + 2)
  let middle := (e.first + e.stop) / 2 - start
  let covered := fun column => e.firstColumn ≤ column && column < e.stop - start
  [numbered e e.firstLine (sourceRow e ink e.firstLine),
    unnumbered e "│" (markedRow widths ink middle "┬" covered),
    unnumbered e "│"
      (markedRow widths ink middle "╰" (middle < ·) ++ plain s!" {message}")]

def acrossLines (e : Extent) (ink : Ink) (message : String) : List Row :=
  let arrow := fun corner => [⟨ink, corner⟩, ⟨ink, "─"⟩, ⟨ink, "▶"⟩, ⟨ink, " "⟩]
  let last := e.line e.lastLine
  let width := last.width (last.length + 2)
  let skipped :=
    if e.lastLine - e.firstLine > 1 then [unnumbered e "┆" (⟨ink, "┆"⟩ :: plain "   ")] else []
  [numbered e e.firstLine (arrow "╭" ++ sourceRow e ink e.firstLine)] ++ skipped ++
    [numbered e e.lastLine (arrow "├" ++ sourceRow e ink e.lastLine),
      unnumbered e "│" (⟨ink, "│"⟩ :: blanks (3 + width)),
      unnumbered e "│" (⟨ink, "╰"⟩ :: dashes ink (3 + width) ++ plain s!" {message}")]

/-- What stands left of a remark. The bar of a defect that goes over several lines is drawn on
only if the defect starts below the first line, and not further into the text than one line. -/
def remarkMargin (e : Extent) (ink : Ink) : Row :=
  if e.firstLine = e.lastLine then []
  else if 1 ≤ e.firstLine && e.first ≤ (e.line 0).length then ⟨ink, "│"⟩ :: blanks 3
  else blanks 4

def remark (e : Extent) (ink : Ink) (word text : String) : List Row :=
  let margin := remarkMargin e ink
  [unnumbered e "│" margin, unnumbered e "│" (margin ++ ⟨.remark, word⟩ :: plain s!": {text}")]

def footer (e : Extent) : Row :=
  [⟨.margin, String.ofList (List.replicate (e.numberWidth + 2) '─' ++ ['╯'])⟩]

end Scriptlet.Report

namespace Scriptlet.Diagnostic

open Report

def extent (d : Diagnostic) (lines : List SourceLine) : Extent :=
  .ofRange lines (d.span.range (lengthOf lines))

def labelRows (d : Diagnostic) (e : Extent) : List Row :=
  let ink := Ink.label d.kind
  if e.firstLine = e.lastLine then withinLine e ink d.message else acrossLines e ink d.message

def remarkRows (d : Diagnostic) (e : Extent) : List Row :=
  let ink := Ink.label d.kind
  (d.help.map (remark e ink "Help")).getD [] ++ (d.note?.map (remark e ink "Note")).getD []

def reportRows (d : Diagnostic) (lines : List SourceLine) : List Row :=
  if lines.isEmpty then [header d.kind d.message]
  else
    let e := d.extent lines
    [header d.kind d.message] ++ place e d.span.start.source ++ d.labelRows e ++ d.remarkRows e ++
      [footer e]

def reportOn (d : Diagnostic) (lines : List SourceLine) (color : Bool) : String :=
  String.join ((d.reportRows lines).map (Row.write color))

def report (d : Diagnostic) (source : String) (color : Bool) : String :=
  d.reportOn (sourceLines source.toList) color

end Scriptlet.Diagnostic
