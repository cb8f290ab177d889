import Scriptlet.Source.Position

/-! A stretch of source text, from its first character to the place after its last. -/

namespace Scriptlet

structure Span where
  start : Position
  stop : Position

namespace Span

def nowhere : Span := ⟨.start "", .start ""⟩

def single (p : Position) : Span :=
  ⟨p, { p with index := p.index + 1, column := p.column + 1 }⟩

def through (a b : Span) : Span := ⟨a.start, b.stop⟩

/-- The characters to point at in a text of the given length, as first and last-but-one
index. At least one is chosen if there is one; a span beyond the end gets the last. -/
def range (s : Span) (length : Nat) : Nat × Nat :=
  if length = 0 then (0, 0)
  else
    let first := min s.start.index (length - 1)
    (first, max (min s.stop.index length) (first + 1))

end Span
end Scriptlet
