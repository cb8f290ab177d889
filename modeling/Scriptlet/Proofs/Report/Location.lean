import Scriptlet.Proofs.Report.Label
import Scriptlet.Proofs.Text.LeadingRun

/-! Where a report says that a defect is. The head of a report names the place at which a reader of
the lines finds the first character that is marked. Positions count fewer ends of lines than a
reader does, so both name the same place just as long as none but line feeds have ended lines. -/

namespace Scriptlet

open Report

/-- None of the first characters ends a line, unless it is a line feed. -/
def OnlyLineFeeds (cs : List Char) (i : Nat) : Prop :=
  ∀ j < i, endsAt cs j = true → cs[j]? = some '\n'

theorem onlyLineFeeds_succ {cs : List Char} {i : Nat} :
    OnlyLineFeeds cs (i + 1) ↔ OnlyLineFeeds cs i ∧ (endsAt cs i = true → cs[i]? = some '\n') :=
  Nat.forall_lt_succ_right

namespace Position

def place (p : Position) : Nat × Nat := (p.line, p.column)

theorem place_atIndex_succ (source : String) {cs : List Char} {i : Nat} (hi : i < cs.length) :
    (atIndex source cs (i + 1)).place =
      nextPlace (cs[i]? = some '\n') (atIndex source cs i).place := by
  rw [atIndex_succ source hi, List.getElem?_eq_getElem hi]
  unfold advance nextPlace place
  by_cases hc : cs[i] = '\n' <;> simp [hc]

theorem toList_display (p : Position) :
    p.display.toList = p.source.toList ++
      ':' :: (Nat.toDigits 10 (p.line + 1) ++ ':' :: Nat.toDigits 10 (p.column + 1)) := by
  simp only [display, String.toList_append, List.append_assoc, Nat.toString_eq_repr,
    Nat.toList_repr]
  rfl

theorem toDigits_injective : Function.Injective (Nat.toDigits 10) := by
  intro m n h
  calc
    m = Nat.ofDigitChars 10 (Nat.toDigits 10 m) 0 := Nat.ofDigitChars_ten_toDigits.symm
    _ = Nat.ofDigitChars 10 (Nat.toDigits 10 n) 0 := by rw [h]
    _ = n := Nat.ofDigitChars_ten_toDigits

theorem display_eq_iff {p q : Position} (hsource : p.source = q.source) :
    p.display = q.display ↔ p.place = q.place := by
  have hdigits (n : Nat) : ∀ c ∈ Nat.toDigits 10 n, c.isDigit = true :=
    fun _ => Nat.isDigit_of_mem_toDigits (by decide) (by decide)
  have hcolon (cs : List Char) : ∀ c ∈ (':' :: cs).head?, c.isDigit = false := by
    rintro c ⟨⟩
    rfl
  constructor
  · intro h
    have hchars := congrArg String.toList h
    rw [toList_display, toList_display, hsource] at hchars
    obtain ⟨-, hnumbers⟩ := List.cons.inj (List.append_cancel_left hchars)
    obtain ⟨hline, hrest⟩ := LeadingRun.append_inj_of_head? (hdigits _) (hdigits _) (hcolon _)
      (hcolon _) hnumbers
    have hcolumn := (List.cons.inj hrest).2
    exact Prod.ext (Nat.succ.inj (toDigits_injective hline))
      (Nat.succ.inj (toDigits_injective hcolumn))
  · intro h
    obtain ⟨hline, hcolumn⟩ := Prod.mk.inj h
    rw [display, display, hsource, hline, hcolumn]

end Position

section
variable (source : String) {cs : List Char} {i : Nat}

theorem locate_eq_place (hi : i < cs.length) (h : OnlyLineFeeds cs i) :
    locate (sourceLines cs) i = (Position.atIndex source cs i).place := by
  induction i with
  | zero => exact locate_zero cs
  | succ i ih =>
    obtain ⟨honly, hlast⟩ := onlyLineFeeds_succ.1 h
    have hlt := Nat.lt_of_succ_lt hi
    have hends : endsAt cs i = decide (cs[i]? = some '\n') :=
      Bool.eq_iff_iff.2 ⟨fun hends => decide_eq_true (hlast hends),
        fun hfeed => endsAt_of_lineFeed (of_decide_eq_true hfeed)⟩
    rw [locate_succ hi, Position.place_atIndex_succ source hlt, ih hlt honly, hends]

/-- Behind any other end of a line the lines of a reader are ahead, and they stay so: what ends a
line for positions ends one for a reader. -/
theorem line_lt_locate (hi : i < cs.length) (h : ¬ OnlyLineFeeds cs i) :
    (Position.atIndex source cs i).place.1 < (locate (sourceLines cs) i).1 := by
  induction i with
  | zero => exact absurd (fun j hj => absurd hj (Nat.not_lt_zero j)) h
  | succ i ih =>
    have hlt := Nat.lt_of_succ_lt hi
    rw [locate_succ hi, Position.place_atIndex_succ source hlt]
    by_cases honly : OnlyLineFeeds cs i
    · -- the last of the characters is the first to end a line that positions do not count
      have hother : ¬ (endsAt cs i = true → cs[i]? = some '\n') :=
        fun hlast => h (onlyLineFeeds_succ.2 ⟨honly, hlast⟩)
      obtain ⟨hends, hfeed⟩ := Classical.not_imp.1 hother
      rw [locate_eq_place source hlt honly, hends, decide_eq_false hfeed]
      exact Nat.lt_succ_self _
    · have hless := ih hlt honly
      by_cases hfeed : cs[i]? = some '\n'
      · rw [endsAt_of_lineFeed hfeed, decide_eq_true hfeed]
        exact Nat.succ_lt_succ hless
      · rw [decide_eq_false hfeed]
        cases endsAt cs i with
        | true => exact Nat.lt_succ_of_lt hless
        | false => exact hless

theorem locate_eq_place_iff (hi : i < cs.length) :
    locate (sourceLines cs) i = (Position.atIndex source cs i).place ↔ OnlyLineFeeds cs i := by
  refine ⟨fun h => by_contra fun hother => ?_, locate_eq_place source hi⟩
  have hless := line_lt_locate source hi hother
  rw [h] at hless
  exact Nat.lt_irrefl _ hless

end

def Report.placeRow (numberWidth : Nat) (location : String) : Row :=
  blanks (numberWidth + 2) ++
    [⟨.margin, "╭"⟩, ⟨.margin, "─"⟩, ⟨.margin, "["⟩, ⟨.plain, location⟩, ⟨.margin, "]"⟩]

namespace Diagnostic

def location (d : Diagnostic) (text : String) : String :=
  Report.location (d.extent (sourceLines text.toList)) d.span.start.source

theorem exists_report_eq (d : Diagnostic) {text : String} (hpos : 0 < text.toList.length)
    (color : Bool) :
    ∃ rest, d.report text color =
      (header d.kind d.message).write color ++
        (placeRow (d.extent (sourceLines text.toList)).numberWidth (d.location text)).write color ++
          rest := by
  rw [d.report_eq hpos]
  simp only [place, List.cons_append, List.nil_append, List.map_cons, String.join_cons]
  exact ⟨_, (String.append_assoc ..).symm⟩

def named (d : Diagnostic) (text : String) : Position :=
  let e := d.extent (sourceLines text.toList)
  ⟨d.span.start.source, e.first, e.firstLine, e.firstColumn⟩

theorem location_eq (d : Diagnostic) (text : String) :
    d.location text = (d.named text).display := rfl

theorem place_named {d : Diagnostic} {text : String}
    (hbefore : d.span.start.index < text.toList.length) :
    (d.named text).place = locate (sourceLines text.toList) d.span.start.index := by
  have hfirst := congrArg Prod.fst (Span.range_of_start_lt hbefore)
  simp only [named, Position.place, d.extent_eq, Extent.ofRange, hfirst]

end Diagnostic

section
variable {c : Char} (blanks : List Char)

theorem Lexed.ofPieces_stray (p : Position) (hblanks : ∀ b ∈ blanks, Text.isBlank b = true)
    (hc : Text.isBlank c = false) (hnone : Lexeme.longest [c] = []) :
    ofPieces p (pieces (blanks ++ [c])) =
      ⟨[.endOfInput ((p.advanceBy blanks).advanceBy [c])],
        [strayDiagnostic c (.along (p.advanceBy blanks) [c])]⟩ := by
  induction blanks generalizing p with
  | nil =>
    rw [List.nil_append, pieces_of_longest_eq_nil hc hnone, pieces_nil]
    rfl
  | cons b blanks ih =>
    obtain ⟨hb, hblanks⟩ := List.forall_mem_cons.1 hblanks
    rw [List.cons_append, pieces_blank hb]
    exact ih (p.advance b) hblanks

theorem evaluateText_stray {text : String} (htext : text.toList = blanks ++ [c])
    (hblanks : ∀ b ∈ blanks, Text.isBlank b = true) (hc : Text.isBlank c = false)
    (hnone : Lexeme.longest [c] = []) (limit : Nat) (source : String) (env : Environment) :
    let d := Lexed.strayDiagnostic c (.along ((Position.start source).advanceBy blanks) [c])
    evaluateText limit source text env = some (⟨[], [d]⟩, env) := by
  intro d
  have hparse : parseText source text = ⟨[], [d]⟩ := by
    rw [parseText, lex, htext, Lexed.ofPieces_stray blanks _ hblanks hc hnone]
    exact parse_endOfInput _ _
  rw [evaluateText_of_defects (by simp [hparse]), hparse]

end

/-- A report, in colour or not, names a place in the row below its title. If what an evaluation
reports starts before the end of the text, that place is the one that the start of the span
displays just if none but line feeds end lines before it. -/
theorem location_eq_display_iff {limit : Nat} {source text : String} {env env' : Environment}
    {e : Evaluation} (h : evaluateText limit source text env = some (e, env')) {d : Diagnostic}
    (hd : d ∈ e.diagnostics) (hbefore : d.span.start.index < text.toList.length) :
    (∀ color, ∃ rest, d.report text color =
      (header d.kind d.message).write color ++
        (placeRow (d.extent (sourceLines text.toList)).numberWidth (d.location text)).write color ++
          rest) ∧
    (d.location text = d.span.start.display ↔
      OnlyLineFeeds text.toList d.span.start.index) := by
  refine ⟨d.exists_report_eq (Nat.zero_lt_of_lt hbefore), ?_⟩
  have hstart := (liesIn_of_mem_evaluateText h hd).start_eq
  have hsource : (d.named text).source = d.span.start.source := rfl
  rw [d.location_eq, Position.display_eq_iff hsource, Diagnostic.place_named hbefore, hstart]
  exact locate_eq_place_iff source hbefore

theorem location_behind_line_feed :
    let d := Lexed.strayDiagnostic '@' (.single ⟨"s", 2, 1, 0⟩)
    evaluateText 0 "s" "\r\n@" .initial = some (⟨[], [d]⟩, .initial) ∧
      d.span.start.index < "\r\n@".toList.length ∧
      (∃ rest, d.report "\r\n@" false =
        (header d.kind d.message).write false ++
          (placeRow (d.extent (sourceLines "\r\n@".toList)).numberWidth
            (d.location "\r\n@")).write false ++ rest) ∧
      d.location "\r\n@" = d.span.start.display ∧ d.span.start.display = "s:2:1" := by
  intro d
  have hrun : evaluateText 0 "s" "\r\n@" .initial = some (⟨[], [d]⟩, .initial) :=
    evaluateText_stray ['\r', '\n'] rfl (List.all_eq_true.1 rfl) (by decide) (by decide) 0 "s" _
  have hbefore : d.span.start.index < "\r\n@".toList.length := by decide
  have honly : OnlyLineFeeds "\r\n@".toList d.span.start.index := by
    unfold OnlyLineFeeds
    decide
  obtain ⟨hreport, hplace⟩ := location_eq_display_iff hrun List.mem_cons_self hbefore
  exact ⟨hrun, hbefore, hreport false, hplace.2 honly, by decide⟩

/-- Behind a carriage return alone, the report names the second line and the position still the
first. -/
theorem location_ne_display_behind_carriage_return :
    let d := Lexed.strayDiagnostic '@' (.single ⟨"s", 1, 0, 1⟩)
    evaluateText 0 "s" "\r@" .initial = some (⟨[], [d]⟩, .initial) ∧
      d.span.start.index < "\r@".toList.length ∧
      d.report "\r@" false =
        "Error: Illegal Character: '@'\n   ╭─[s:2:1]\n   │\n 2 │ @\n   │ ┬  \n   │ ╰── '@'\n───╯\n" ∧
      d.location "\r@" = "s:2:1" ∧ d.span.start.display = "s:1:2" ∧
      d.location "\r@" ≠ d.span.start.display := by
  intro d
  have hrun : evaluateText 0 "s" "\r@" .initial = some (⟨[], [d]⟩, .initial) :=
    evaluateText_stray ['\r'] rfl (List.all_eq_true.1 rfl) (by decide) (by decide) 0 "s" _
  exact ⟨hrun, by decide, by decide +kernel, by decide +kernel, by decide, by decide +kernel⟩

end Scriptlet
