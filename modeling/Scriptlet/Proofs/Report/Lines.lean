import Scriptlet.Report.SourceLine

/-! Where a reader finds a character. The lines that a text is cut into hold all of its characters,
and the place of each follows from that of the one in front of it: it is the next column, or the
start of the next line if a line ends there. -/

namespace Scriptlet.Report

theorem lengthOf_cons (line : SourceLine) (lines : List SourceLine) :
    lengthOf (line :: lines) = line.length + lengthOf lines := by
  have hsum (lines : List SourceLine) : lengthOf lines = (lines.map List.length).sum := by
    rw [lengthOf, ← List.foldl_map, ← List.sum_eq_foldl]
  rw [hsum, hsum, List.map_cons, List.sum_cons]

theorem lengthOf_sourceLines (cs : List Char) : lengthOf (sourceLines cs) = cs.length := by
  induction cs with
  | nil => rfl
  | cons c rest ih =>
    rw [List.length_cons, ← ih, sourceLines]
    split
    · rw [lengthOf_cons, List.length_singleton, Nat.add_comm]
    · split
      · next h =>
        rw [h]
        rfl
      · next line lines h =>
        rw [h, lengthOf_cons, lengthOf_cons, List.length_cons, Nat.add_right_comm]

theorem sourceLines_eq_nil_iff {cs : List Char} : sourceLines cs = [] ↔ cs = [] := by
  constructor
  · intro h
    have hlength := lengthOf_sourceLines cs
    rw [h] at hlength
    exact List.length_eq_zero_iff.1 hlength.symm
  · rintro rfl
    rfl

theorem lengthOf_take_locate (lines : List SourceLine) (i : Nat) :
    lengthOf (lines.take (locate lines i).1) + (locate lines i).2 = i := by
  induction lines generalizing i with
  | nil => exact Nat.zero_add i
  | cons line lines ih =>
    rw [locate]
    split
    · exact Nat.zero_add i
    · next hge =>
      have hrest := ih (i - line.length)
      calc
        lengthOf (line :: lines.take (locate lines (i - line.length)).1) +
            (locate lines (i - line.length)).2 = line.length + (i - line.length) := by
          rw [lengthOf_cons, Nat.add_assoc, hrest]
        _ = i := Nat.add_sub_cancel' (Nat.not_lt.1 hge)

def endsAt (cs : List Char) (i : Nat) : Bool := cs[i]?.any (endsLine · cs[i + 1]?)

def nextPlace (ends : Bool) (place : Nat × Nat) : Nat × Nat :=
  if ends then (place.1 + 1, 0) else (place.1, place.2 + 1)

theorem endsAt_of_lineFeed {cs : List Char} {i : Nat} (h : cs[i]? = some '\n') :
    endsAt cs i = true := by
  rw [endsAt, h]
  rfl

theorem locate_zero (cs : List Char) : locate (sourceLines cs) 0 = (0, 0) := by
  cases cs with
  | nil => rfl
  | cons c rest =>
    rw [sourceLines]
    split
    · rfl
    · split <;> rfl

theorem locate_cons (c : Char) {rest : List Char} {i : Nat} (hi : i < rest.length) :
    locate (sourceLines (c :: rest)) (i + 1) =
      let place := locate (sourceLines rest) i
      if endsLine c rest.head? then (place.1 + 1, place.2)
      else if place.1 = 0 then (0, place.2 + 1)
      else place := by
  rw [sourceLines]
  split
  · rfl
  · split
    · next h =>
      rw [sourceLines_eq_nil_iff.1 h] at hi
      exact absurd hi (Nat.not_lt_zero i)
    · next line lines h =>
      rw [h, locate, locate, List.length_cons]
      by_cases hline : i < line.length
      · rw [if_pos (Nat.succ_lt_succ hline), if_pos hline]
        rfl
      · rw [if_neg (mt Nat.lt_of_succ_lt_succ hline), if_neg hline, Nat.add_sub_add_right]
        rfl

theorem locate_succ {cs : List Char} {i : Nat} (hi : i + 1 < cs.length) :
    locate (sourceLines cs) (i + 1) = nextPlace (endsAt cs i) (locate (sourceLines cs) i) := by
  induction cs generalizing i with
  | nil => exact absurd hi (Nat.not_lt_zero _)
  | cons c rest ih =>
    have hrest : i < rest.length := Nat.lt_of_succ_lt_succ hi
    cases i with
    | zero =>
      have hends : endsAt (c :: rest) 0 = endsLine c rest.head? := by
        rw [endsAt, List.head?_eq_getElem?]
        rfl
      rw [locate_cons c hrest, locate_zero, locate_zero, hends]
      rfl
    | succ i =>
      have hends : endsAt (c :: rest) (i + 1) = endsAt rest i := rfl
      rw [locate_cons c hrest, locate_cons c (Nat.lt_of_succ_lt hrest), ih hrest, hends]
      -- both steps are on the line of `c` only if none ends before them
      cases endsLine c rest.head? <;> cases endsAt rest i <;>
        by_cases hfirst : (locate (sourceLines rest) i).1 = 0 <;> simp [nextPlace, hfirst]

end Scriptlet.Report
