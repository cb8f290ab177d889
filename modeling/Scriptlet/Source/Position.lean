/-! A place in a named source text. Places are counted in characters from zero; only a line
feed starts a new line. -/

namespace Scriptlet

structure Position where
  source : String
  index : Nat
  line : Nat
  column : Nat

namespace Position

def start (source : String) : Position := ⟨source, 0, 0, 0⟩

def advance (p : Position) (c : Char) : Position :=
  if c = '\n' then ⟨p.source, p.index + 1, p.line + 1, 0⟩
  else ⟨p.source, p.index + 1, p.line, p.column + 1⟩

def advanceBy (p : Position) (cs : List Char) : Position := cs.foldl advance p

def display (p : Position) : String := s!"{p.source}:{p.line + 1}:{p.column + 1}"

theorem advanceBy_append (p : Position) (xs ys : List Char) :
    p.advanceBy (xs ++ ys) = (p.advanceBy xs).advanceBy ys := List.foldl_append

theorem index_advance (p : Position) (c : Char) : (p.advance c).index = p.index + 1 := by
  unfold advance
  split <;> rfl

theorem index_advanceBy (p : Position) (cs : List Char) :
    (p.advanceBy cs).index = p.index + cs.length := by
  induction cs generalizing p with
  | nil => rfl
  | cons c cs ih =>
    rw [List.length_cons, ← Nat.add_assoc, Nat.add_right_comm]
    exact (ih (p.advance c)).trans (by rw [index_advance])

end Position
end Scriptlet
