/-! How alike two words are, from zero to one: by the share of characters that each finds in the
other not too far from its own place, and by how many of those come in the same order. -/

namespace Scriptlet.Text

/-- For each character in turn, the first free one that is equal to it and at most `reach`
places away. -/
def partners (reach : Nat) : List (Char × Nat) → List (Char × Nat) → List (Char × Nat)
  | [], _ => []
  | (c, i) :: rest, free =>
    match free.find? fun (d, j) => c = d && i ≤ j + reach && j ≤ i + reach with
    | none => partners reach rest free
    | some partner => partner :: partners reach rest (free.erase partner)

def similarity (a b : List Char) : Float :=
  let found := partners (max a.length b.length / 2 - 1) a.zipIdx b.zipIdx
  let inOrder := b.zipIdx.filter found.contains
  let swapped := (found.zip inOrder).countP (fun (p, q) => p.1 ≠ q.1) / 2
  if found.isEmpty then 0.0
  else
    let share := fun (n total : Nat) => Float.ofNat n / Float.ofNat total
    (share found.length a.length + share found.length b.length +
      share (found.length - swapped) found.length) / 3.0

end Scriptlet.Text
