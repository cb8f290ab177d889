import Scriptlet.Diagnostic

/-! The colours of a report. A report is made of strokes, each in one ink; whether the ink shows
is decided when the strokes are written out. -/

namespace Scriptlet.Report

inductive Ink
  | plain
  /-- the word that opens a report -/
  | title
  /-- what points at the defect -/
  | label (kind : DiagnosticKind)
  /-- the frame and the line numbers -/
  | margin
  /-- the margin of lines without a number -/
  | faintMargin
  /-- source text beside the defect -/
  | source
  /-- the words that open a remark -/
  | remark

namespace Ink

def code? : Ink → Option String
  | plain => none
  | title => some "31"
  | label .illegalCharacter | label .expectedCharacter => some "31"
  | label .expectedToken => some "33"
  | label .runtimeError => some "35"
  | margin => some "38;5;246"
  | faintMargin => some "38;5;240"
  | source => some "38;5;249"
  | remark => some "38;5;115"

end Ink

structure Stroke where
  ink : Ink
  text : String

namespace Stroke

def write (color : Bool) (s : Stroke) : String :=
  match color, s.ink.code? with
  | true, some code => s!"\x1b[{code}m{s.text}\x1b[0m"
  | _, _ => s.text

end Stroke

abbrev Row := List Stroke

namespace Row

def write (color : Bool) (r : Row) : String := String.join (r.map (Stroke.write color)) ++ "\n"

end Row

def plain (text : String) : Row := [⟨.plain, text⟩]

def blanks (n : Nat) : Row := plain (String.ofList (List.replicate n ' '))

def dashes (ink : Ink) (n : Nat) : Row := List.replicate n ⟨ink, "─"⟩

end Scriptlet.Report
