import Scriptlet.Proofs.Evaluation.Position
import Scriptlet.Proofs.Report.Marks

/-! What a report points at. Whatever span it is made for, it marks characters of the text, and at
least one if there is any; no number on the way to them is too small or too large for a machine.
What an evaluation reports is marked from its start on, or by the last character of the text if it
is about the end of the input. -/

namespace Scriptlet

namespace Span

def word? (top : Nat) (exact : Int) : Option Nat :=
  if 0 ≤ exact ∧ exact ≤ top then some exact.toNat else none

/-- The range in machine words, given up at a difference or a sum that is none. -/
def range? (top : Nat) (s : Span) (length : Nat) : Option (Nat × Nat) :=
  if length = 0 then some (0, 0)
  else
    (word? top (length - 1)).bind fun last =>
      let first := min s.start.index last
      (word? top (first + 1)).map fun next => (first, max (min s.stop.index length) next)

theorem word?_eq {top n : Nat} {exact : Int} (hexact : exact = n) (hn : n ≤ top) :
    word? top exact = some n := by
  have hrange : 0 ≤ exact ∧ exact ≤ top := by omega
  rw [word?, if_pos hrange, hexact, Int.toNat_natCast]

theorem range?_eq (s : Span) {length top : Nat} (h : length ≤ top) :
    s.range? top length = some (s.range length) := by
  by_cases hzero : length = 0
  · rw [range?, range, if_pos hzero, if_pos hzero]
  · have hlast : word? top (length - 1) = some (length - 1) := word?_eq (by omega) (by omega)
    have hnext : word? top ((min s.start.index (length - 1) : Nat) + 1) =
        some (min s.start.index (length - 1) + 1) := word?_eq rfl (by omega)
    rw [range?, range, if_neg hzero, if_neg hzero, hlast, Option.bind_some]
    simp only [hnext, Option.map_some]

theorem range_of_start_lt {s : Span} {length : Nat} (h : s.start.index < length) :
    s.range length =
      (s.start.index, max (min s.stop.index length) (s.start.index + 1)) := by
  have hfirst : min s.start.index (length - 1) = s.start.index := by omega
  rw [range, if_neg (Nat.ne_zero_of_lt h), hfirst]

theorem range_of_le_start {s : Span} {length : Nat} (hpos : 0 < length)
    (h : length ≤ s.start.index) : s.range length = (length - 1, length) := by
  have hfirst : min s.start.index (length - 1) = length - 1 := by omega
  have hstop : max (min s.stop.index length) (length - 1 + 1) = length := by omega
  rw [range, if_neg (Nat.ne_of_gt hpos), hfirst]
  exact congrArg (Prod.mk (length - 1)) hstop

/-- The characters from the first on, up to the one in front of the second, are a label for the
span in a text of the given length. -/
structure Labels (s : Span) (length : Nat) (label : Nat × Nat) : Prop where
  le : label.1 ≤ label.2
  le_length : label.2 ≤ length
  lt_iff : label.1 < label.2 ↔ 0 < length
  eq_of_inside (hlt : s.start.index < s.stop.index) (hle : s.stop.index ≤ length) :
    label = (s.start.index, s.stop.index)
  eq_of_behind (hpos : 0 < length) (hle : length ≤ s.start.index) : label = (length - 1, length)

theorem labels_range (s : Span) (length : Nat) : s.Labels length (s.range length) := by
  rcases Nat.eq_zero_or_pos length with rfl | hpos
  · have hempty : s.range 0 = (0, 0) := if_pos rfl
    rw [hempty]
    exact
      { le := Nat.le_refl 0
        le_length := Nat.le_refl 0
        lt_iff := Iff.rfl
        eq_of_inside := fun hlt hle => absurd (Nat.lt_of_lt_of_le hlt hle) (Nat.not_lt_zero _)
        eq_of_behind := fun hpos _ => absurd hpos (Nat.lt_irrefl 0) }
  · rcases Nat.lt_or_ge s.start.index length with hlt | hge
    · rw [range_of_start_lt hlt]
      exact
        { le := by omega
          le_length := by omega
          lt_iff := by omega
          eq_of_inside := fun hspan hle => by rw [Nat.min_eq_left hle, Nat.max_eq_left hspan]
          eq_of_behind := fun _ hle => absurd hlt (Nat.not_lt.2 hle) }
    · rw [range_of_le_start hpos hge]
      exact
        { le := Nat.sub_le length 1
          le_length := Nat.le_refl length
          lt_iff := by omega
          eq_of_inside := fun hspan hle =>
            absurd (Nat.lt_of_lt_of_le hspan hle) (Nat.not_lt.2 hge)
          eq_of_behind := fun _ _ => rfl }

end Span

namespace Diagnostic

theorem extent_eq (d : Diagnostic) (cs : List Char) :
    d.extent (Report.sourceLines cs) =
      .ofRange (Report.sourceLines cs) (d.span.range cs.length) := by
  rw [extent, Report.lengthOf_sourceLines]

theorem report_eq (d : Diagnostic) {text : String} (hpos : 0 < text.toList.length)
    (color : Bool) :
    let extent := d.extent (Report.sourceLines text.toList)
    d.report text color = String.join
      (([Report.header d.kind d.message] ++ Report.place extent d.span.start.source ++
        d.labelRows extent ++ d.remarkRows extent ++ [Report.footer extent]).map
          (Report.Row.write color)) := by
  have hlines : (Report.sourceLines text.toList).isEmpty = false := by
    rw [List.isEmpty_eq_false_iff, ne_eq, Report.sourceLines_eq_nil_iff]
    exact List.length_pos_iff.1 hpos
  rw [report, reportOn, reportRows, hlines, if_neg Bool.false_ne_true]

theorem showsLabel_labelRows (d : Diagnostic) {cs : List Char} (hpos : 0 < cs.length) :
    Report.ShowsLabel cs (d.span.range cs.length) (.label d.kind) d.message
      (d.labelRows (d.extent (Report.sourceLines cs))) := by
  rw [extent_eq]
  unfold labelRows
  split
  · next hline =>
    exact Report.showsLabel_withinLine _ _ _ _ ((d.span.labels_range _).lt_iff.2 hpos) hline
  · next hline => exact Report.showsLabel_acrossLines _ _ _ _ hline

end Diagnostic

theorem parse_endOfInput (p : Position) (ds : List Diagnostic) :
    parse [.endOfInput p] ds = ⟨[], ds⟩ := by
  have hparse := parse_eq_iff (List.cons_ne_nil (.endOfInput p) []) (p := []) ds []
  rw [List.append_nil] at hparse
  exact hparse.2 ⟨[], .finished⟩

theorem length_pos_of_mem_evaluateText {limit : Nat} {source text : String} {env env' : Environment}
    {e : Evaluation} (h : evaluateText limit source text env = some (e, env')) {d : Diagnostic}
    (hd : d ∈ e.diagnostics) : 0 < text.toList.length := by
  refine List.length_pos_iff.2 fun hempty => ?_
  have hparse : parseText source text = ⟨[], []⟩ := by
    rw [parseText, lex, hempty, pieces_nil]
    exact parse_endOfInput (.start source) []
  rcases exists_of_mem_evaluateText h hd with hread | ⟨n, hn, -⟩
  · rw [hparse] at hread
    exact List.not_mem_nil hread
  · rw [hparse] at hn
    exact List.not_mem_nil hn

/-- A label lies in the text and is not empty if the text is not, and it takes no number that is too
small or too large for a machine that can hold the text. Where the span lies in the text the label
is the span, and behind the text it is the last character. So what an evaluation reports has a label
in the text, and this starts where the span does unless the span is that of the end of the input.
The report is laid out by it, and shows it. -/
theorem labels_lie_in_text :
    (∀ (s : Span) (length : Nat), s.Labels length (s.range length) ∧
      ∀ top, length ≤ top → s.range? top length = some (s.range length)) ∧
    ∀ limit source text env e env', evaluateText limit source text env = some (e, env') →
      ∀ d ∈ e.diagnostics,
        let cs := text.toList
        let extent := d.extent (Report.sourceLines cs)
        (extent.first, extent.stop) = d.span.range cs.length ∧
        (extent.first < extent.stop ∧ extent.stop ≤ cs.length) ∧
        (extent.first = d.span.start.index ∨
          d.span = ⟨.atIndex source cs cs.length, .beyond source cs⟩) ∧
        (∀ color, d.report text color = String.join
          (([Report.header d.kind d.message] ++ Report.place extent d.span.start.source ++
            d.labelRows extent ++ d.remarkRows extent ++ [Report.footer extent]).map
              (Report.Row.write color))) ∧
        Report.ShowsLabel cs (extent.first, extent.stop) (.label d.kind) d.message
          (d.labelRows extent) := by
  refine ⟨fun s length => ⟨s.labels_range length, fun top => s.range?_eq⟩, ?_⟩
  intro limit source text env e env' h d hd cs extent
  have hpos := length_pos_of_mem_evaluateText h hd
  have hlies := liesIn_of_mem_evaluateText h hd
  have hlabels := d.span.labels_range cs.length
  have hrange : (extent.first, extent.stop) = d.span.range cs.length := by
    rw [show extent = _ from d.extent_eq cs]
    rfl
  have hshows := d.showsLabel_labelRows hpos
  rw [← hrange] at hlabels hshows
  refine ⟨hrange, ⟨hlabels.lt_iff.2 hpos, hlabels.le_length⟩, ?_, d.report_eq hpos, hshows⟩
  rcases Nat.lt_or_ge d.span.start.index cs.length with hlt | hge
  · rw [Span.range_of_start_lt hlt] at hrange
    exact .inl (congrArg Prod.fst hrange)
  · have hindex := Nat.le_antisymm hlies.start_le hge
    have hstop : d.span.stop = .beyond source cs := by
      refine hlies.stop_eq.resolve_left fun hinside => ?_
      exact absurd (Nat.lt_of_lt_of_le hlies.start_lt hinside.1) (Nat.not_lt.2 hge)
    have hstart := hlies.start_eq
    rw [hindex] at hstart
    exact .inr (by rw [← hstart, ← hstop])

theorem labels_of_open_text :
    let x : Token := .ofText ['x'] (.single ⟨"s", 0, 0, 0⟩)
    let mark : Token := .endOfInput ⟨"s", 1, 0, 1⟩
    let d := Expectation.endOfStatement.diagnostic mark
    (x.span.range 1 = (0, 1) ∧ mark.span.range 1 = (0, 1) ∧ mark.span.range? 1 1 = some (0, 1)) ∧
      evaluateText 0 "s" "x" .initial = some (⟨[], [d]⟩, .initial) ∧
      let extent := d.extent [['x']]
      (extent.first, extent.stop) = (0, 1) ∧ (extent.first < extent.stop ∧ extent.stop ≤ 1) ∧
      (extent.first = d.span.start.index ∨
        d.span = ⟨.atIndex "s" ['x'] 1, .beyond "s" ['x']⟩) ∧
      (d.report "x" false = String.join
        (([Report.header d.kind d.message] ++ Report.place extent "s" ++ d.labelRows extent ++
          d.remarkRows extent ++ [Report.footer extent]).map (Report.Row.write false))) ∧
      Report.ShowsLabel ['x'] (0, 1) (.label .expectedToken) d.message (d.labelRows extent) := by
  intro x mark d
  obtain ⟨hlabels, hreports⟩ := labels_lie_in_text
  have hpieces : pieces ['x'] = [.lexeme ['x']] := by
    rw [pieces_single, pieces_nil] <;> decide
  have hlex : lex "s" "x" = ⟨[x, mark], []⟩ := congrArg (Lexed.ofPieces (.start "s")) hpieces
  have hexpression : Grammar.Reads mark (.expression (.access x)) [x] [] [] :=
    Grammar.produces rfl (.logical ((Spelled.access rfl).of_primary .logical)) []
      (Tier.rests_of_kind (by decide) _)
  have hreads : Grammar.Reads mark (.statements false [.access x]) [x] [] [d] :=
    .next rfl (.closed (by decide) (by decide) hexpression rfl (.unmet (by decide))) (Nat.le_refl 0)
      .finished
  have hparse : parseText "s" "x" = ⟨[.access x], [d]⟩ := by
    rw [parseText, hlex]
    exact (parse_eq_iff (List.cons_ne_nil _ _) [] _).2 ⟨[], hreads⟩
  have hrun : evaluateText 0 "s" "x" .initial = some (⟨[], [d]⟩, .initial) := by
    rw [evaluateText_of_defects (by simp [hparse]), hparse]
  have hbehind : mark.span.range 1 = (0, 1) :=
    (hlabels mark.span 1).1.eq_of_behind (by decide) (by decide)
  have hword := (hlabels mark.span 1).2 1 (Nat.le_refl 1)
  rw [hbehind] at hword
  obtain ⟨hrange, hinside, hstarts, hreport, hshows⟩ :=
    hreports 0 "s" "x" .initial _ _ hrun d List.mem_cons_self
  exact ⟨⟨(hlabels x.span 1).1.eq_of_inside (by decide) (by decide), hbehind, hword⟩, hrun,
    hrange, hinside, hstarts, hreport false, hshows⟩

end Scriptlet
