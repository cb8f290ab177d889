import Scriptlet.Proofs.Report.Lines
import Scriptlet.Report.Layout

/-! What a report shows of its label. Rows are read sign by sign: a sign of the text is in the ink
of the label just if the label covers its character, and if the label is on a single line the
marks below it are as wide as what they stand for. -/

namespace Scriptlet.Report

theorem flatMap_flatten_mapIdx {α β γ : Type} (f : β → List γ) (columns : List α)
    (strokes : Nat → α → List β) :
    (columns.mapIdx strokes).flatten.flatMap f =
      (columns.mapIdx fun i a => (strokes i a).flatMap f).flatten := by
  rw [← List.flatMap_id, List.flatMap_assoc, List.flatMap_def, List.mapIdx_eq_zipIdx_map,
    List.mapIdx_eq_zipIdx_map, List.map_map]
  rfl

namespace Row

def signs (row : Row) : List (Char × Ink) := row.flatMap fun s => s.text.toList.map (·, s.ink)

def inks (row : Row) : List Ink := row.flatMap fun s => List.replicate s.text.length s.ink

theorem signs_map_toString (cs : List Char) (ink : Ink) :
    signs (cs.map fun c => ⟨ink, c.toString⟩) = cs.map (·, ink) := by
  induction cs with
  | nil => rfl
  | cons c cs ih =>
    rw [List.map_cons, signs, List.flatMap_cons, ← signs, ih]
    simp

theorem inks_cons (s : Stroke) (row : Row) :
    inks (s :: row) = List.replicate s.text.length s.ink ++ inks row := List.flatMap_cons

theorem inks_dashes (ink : Ink) (n : Nat) : inks (dashes ink n) = List.replicate n ink := by
  induction n with
  | zero => rfl
  | succ n ih =>
    have hlength : "─".length = 1 := by decide
    rw [dashes, List.replicate_succ, inks_cons, ← dashes, ih, hlength, List.replicate_succ]
    rfl

theorem inks_blanks (n : Nat) : inks (blanks n) = List.replicate n .plain := by
  simp [inks, blanks, plain]

end Row

def labelInk (label : Nat × Nat) (ink other : Ink) (i : Nat) : Ink :=
  if label.1 ≤ i ∧ i < label.2 then ink else other

theorem signs_sourceRow (e : Extent) (ink : Ink) (number : Nat) :
    (sourceRow e ink number).signs =
      ((e.line number).cells.mapIdx fun column cell =>
        cell.1.map
          (·, labelInk (e.first, e.stop) ink .source (e.lineStart number + column))).flatten := by
  refine (flatMap_flatten_mapIdx ..).trans (congrArg List.flatten ?_)
  refine List.mapIdx_eq_mapIdx_iff.2 fun column _ => (Row.signs_map_toString ..).trans ?_
  simp only [labelInk, Bool.and_eq_true, decide_eq_true_eq]

theorem inks_markedRow (widths : List Nat) (ink : Ink) {mark : Nat} {sign : String}
    {filled : Nat → Bool} (hsign : sign.length = 1) (hmark : filled mark = true) :
    (markedRow widths ink mark sign filled).inks =
      (widths.mapIdx fun column width =>
        List.replicate width (if filled column then ink else .plain)).flatten := by
  refine (flatMap_flatten_mapIdx ..).trans (congrArg List.flatten ?_)
  refine List.mapIdx_eq_mapIdx_iff.2 fun column _ => ?_
  generalize widths[column] = width
  change Row.inks _ = _
  split
  · next heq =>
    subst heq
    rw [hmark, if_pos rfl]
    cases width with
    | zero => rfl
    | succ n => rw [Row.inks_cons, Row.inks_dashes, hsign]; rfl
  · split
    · exact Row.inks_dashes ink width
    · exact Row.inks_blanks width

def lineOf (cs : List Char) (i : Nat) : SourceLine :=
  (sourceLines cs).getD (locate (sourceLines cs) i).1 []

def lineStartOf (cs : List Char) (i : Nat) : Nat := i - (locate (sourceLines cs) i).2

/-- The signs of the line of a character, those of the label in its ink. -/
def shownSigns (cs : List Char) (label : Nat × Nat) (ink : Ink) (i : Nat) : List (Char × Ink) :=
  ((lineOf cs i).cells.mapIdx fun column cell =>
    cell.1.map (·, labelInk label ink .source (lineStartOf cs i + column))).flatten

/-- The inks of the marks below the line in which the label starts. -/
def markInks (cs : List Char) (label : Nat × Nat) (ink : Ink) (columns : Nat) : List Ink :=
  (((lineOf cs label.1).widths columns).mapIdx fun column width =>
    List.replicate width (labelInk label ink .plain (lineStartOf cs label.1 + column))).flatten

/-- The lines in which the label starts and ends are among the rows, with its characters in its ink.
If this is one line, there are marks below it, and the message is there in any case. -/
structure ShowsLabel (cs : List Char) (label : Nat × Nat) (ink : Ink) (message : String)
    (rows : List Row) : Prop where
  shown (i : Nat) (hi : i = label.1 ∨ i = label.2 - 1) :
    ∃ row ∈ rows, ∃ line : Row, line <:+ row ∧ line.signs = shownSigns cs label ink i
  marked (h : (locate (sourceLines cs) label.1).1 = (locate (sourceLines cs) (label.2 - 1)).1) :
    ∃ columns, label.2 ≤ lineStartOf cs label.1 + columns ∧
      ∃ row ∈ rows, ∃ marks : Row, marks <:+ row ∧ marks.inks = markInks cs label ink columns
  told : ∃ row ∈ rows, plain s!" {message}" <:+ row

theorem suffix_numbered (e : Extent) (number : Nat) (row : Row) : row <:+ numbered e number row :=
  List.suffix_append ..

theorem suffix_unnumbered (e : Extent) (bar : String) (row : Row) : row <:+ unnumbered e bar row :=
  List.suffix_append ..

section
variable (cs : List Char) (label : Nat × Nat) (ink : Ink) (message : String)

theorem lineStart_locate (i : Nat) :
    (Extent.ofRange (sourceLines cs) label).lineStart (locate (sourceLines cs) i).1 =
      lineStartOf cs i :=
  Nat.eq_sub_of_add_eq (lengthOf_take_locate (sourceLines cs) i)

theorem signs_sourceRow_locate (i : Nat) :
    (sourceRow (.ofRange (sourceLines cs) label) ink (locate (sourceLines cs) i).1).signs =
      shownSigns cs label ink i := by
  rw [signs_sourceRow, lineStart_locate]
  rfl

theorem showsLabel_withinLine (hlabel : label.1 < label.2)
    (hline : (locate (sourceLines cs) label.1).1 = (locate (sourceLines cs) (label.2 - 1)).1) :
    ShowsLabel cs label ink message (withinLine (.ofRange (sourceLines cs) label) ink message) := by
  have hplace := lengthOf_take_locate (sourceLines cs) label.1
  have hstart : lineStartOf cs label.1 = label.1 - (locate (sourceLines cs) label.1).2 := rfl
  constructor
  · intro i hi
    have hnumber : (locate (sourceLines cs) label.1).1 = (locate (sourceLines cs) i).1 := by
      rcases hi with rfl | rfl
      · rfl
      · exact hline
    refine ⟨_, List.mem_cons_self, _, suffix_numbered .., ?_⟩
    change (sourceRow _ ink (locate (sourceLines cs) label.1).1).signs = _
    rw [hnumber]
    exact signs_sourceRow_locate cs label ink i
  · intro _
    refine ⟨label.2 - lineStartOf cs label.1 + 2, by omega, _,
      List.mem_cons_of_mem _ List.mem_cons_self, _, suffix_unnumbered .., ?_⟩
    refine (inks_markedRow _ ink (by decide) ?_).trans (congrArg List.flatten ?_)
    -- the sign that the message hangs from is in the middle of the label
    · simp only [Extent.ofRange, ← hstart, Bool.and_eq_true, decide_eq_true_eq]
      omega
    · refine List.mapIdx_eq_mapIdx_iff.2 fun column _ => congrArg (List.replicate _) ?_
      have hcovered : (locate (sourceLines cs) label.1).2 ≤ column ∧
          column < label.2 - lineStartOf cs label.1 ↔
            label.1 ≤ lineStartOf cs label.1 + column ∧
              lineStartOf cs label.1 + column < label.2 := by
        omega
      change (if decide ((locate (sourceLines cs) label.1).2 ≤ column) &&
        decide (column < label.2 - lineStartOf cs label.1) then ink else .plain) = _
      simp only [Bool.and_eq_true, decide_eq_true_eq, hcovered, labelInk]
  · exact ⟨_, List.mem_cons_of_mem _ (List.mem_cons_of_mem _ List.mem_cons_self),
      (List.suffix_append ..).trans (suffix_unnumbered ..)⟩

theorem showsLabel_acrossLines
    (hline : (locate (sourceLines cs) label.1).1 ≠ (locate (sourceLines cs) (label.2 - 1)).1) :
    ShowsLabel cs label ink message
      (acrossLines (.ofRange (sourceLines cs) label) ink message) := by
  constructor
  · rintro i (rfl | rfl)
    · exact ⟨_, List.mem_append_left _ (List.mem_append_left _ List.mem_cons_self), _,
        (List.suffix_append ..).trans (suffix_numbered ..), signs_sourceRow_locate cs label ink _⟩
    · exact ⟨_, List.mem_append_right _ List.mem_cons_self, _,
        (List.suffix_append ..).trans (suffix_numbered ..), signs_sourceRow_locate cs label ink _⟩
  · exact fun h => absurd h hline
  · refine ⟨_, List.mem_append_right _
      (List.mem_cons_of_mem _ (List.mem_cons_of_mem _ List.mem_cons_self)), ?_⟩
    exact (List.suffix_append ..).trans (suffix_unnumbered ..)

end

end Scriptlet.Report
