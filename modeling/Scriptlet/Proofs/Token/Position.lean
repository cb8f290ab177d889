import Scriptlet.Proofs.Token.Coverage

/-! Where in a text a position is. The line and the column that a reader counts to in the text are
those of every position in its token stream. -/

namespace Scriptlet

/-- The index just after the last line feed among the first characters, or zero if there is none
among them. -/
def lineStart (cs : List Char) : Nat → Nat
  | 0 => 0
  | i + 1 => if cs[i]? = some '\n' then i + 1 else lineStart cs i

theorem lineStart_le (cs : List Char) (i : Nat) : lineStart cs i ≤ i := by
  induction i with
  | zero => exact Nat.le_refl 0
  | succ i ih =>
    unfold lineStart
    split
    · exact Nat.le_refl _
    · exact Nat.le_succ_of_le ih

namespace Position

def atIndex (source : String) (cs : List Char) (i : Nat) : Position where
  source
  index := i
  line := (cs.take i).count '\n'
  column := i - lineStart cs i

def beyond (source : String) (cs : List Char) : Position :=
  let last := atIndex source cs cs.length
  { last with index := cs.length + 1, column := last.column + 1 }

theorem atIndex_succ (source : String) {cs : List Char} {i : Nat} (hi : i < cs.length) :
    atIndex source cs (i + 1) = (atIndex source cs i).advance cs[i] := by
  have hlines : (cs.take (i + 1)).count '\n' = (cs.take i).count '\n' + [cs[i]].count '\n' := by
    rw [List.take_add_one, List.getElem?_eq_getElem hi, List.count_append]
    rfl
  have hstart : lineStart cs (i + 1) = if cs[i] = '\n' then i + 1 else lineStart cs i := by
    rw [lineStart, List.getElem?_eq_getElem hi]
    simp only [Option.some.injEq]
  have hle := lineStart_le cs i
  unfold atIndex advance
  rw [hlines, hstart]
  by_cases hc : cs[i] = '\n'
  · simp [hc]
  · have hcolumn : i + 1 - lineStart cs i = i - lineStart cs i + 1 := by omega
    simp [hc, hcolumn]

theorem advanceBy_take (source : String) (cs : List Char) (i : Nat) (hi : i ≤ cs.length) :
    (start source).advanceBy (cs.take i) = atIndex source cs i := by
  induction i with
  | zero => rfl
  | succ i ih =>
    have hprevious := ih (Nat.le_of_lt hi)
    rw [List.take_add_one, List.getElem?_eq_getElem hi, advanceBy_append, hprevious,
      atIndex_succ source hi]
    rfl

theorem advanceBy_of_isPrefix (source : String) {xs cs : List Char} (h : xs <+: cs) :
    (start source).advanceBy xs = atIndex source cs xs.length := by
  have hxs : xs = cs.take xs.length := List.prefix_iff_eq_take.1 h
  rw [← advanceBy_take source cs xs.length h.length_le, ← hxs]

end Position

namespace Span

/-- The span has at least one character. It starts at a place of the text, and ends at one or
beyond the end of the text. -/
structure LiesIn (source : String) (cs : List Char) (s : Span) : Prop where
  start_le : s.start.index ≤ cs.length
  start_eq : s.start = .atIndex source cs s.start.index
  start_lt : s.start.index < s.stop.index
  stop_eq : s.stop.index ≤ cs.length ∧ s.stop = .atIndex source cs s.stop.index ∨
    s.stop = .beyond source cs

theorem LiesIn.through {source : String} {cs : List Char} {a b : Span} (ha : a.LiesIn source cs)
    (hb : b.LiesIn source cs) (h : a.start.index ≤ b.start.index) :
    (a.through b).LiesIn source cs :=
  ⟨ha.start_le, ha.start_eq, Nat.lt_of_le_of_lt h hb.start_lt, hb.stop_eq⟩

theorem liesIn_along (source : String) {before cs after : List Char} (hcs : cs ≠ []) :
    (along ((Position.start source).advanceBy before) cs).LiesIn source
      (before ++ (cs ++ after)) := by
  have hlength : 0 < cs.length := List.length_pos_iff.2 hcs
  have hstart : (Position.start source).advanceBy before =
      .atIndex source (before ++ (cs ++ after)) before.length :=
    Position.advanceBy_of_isPrefix source (List.prefix_append _ _)
  have hstop : ((Position.start source).advanceBy before).advanceBy cs =
      .atIndex source (before ++ (cs ++ after)) (before ++ cs).length := by
    rw [← Position.advanceBy_append]
    refine Position.advanceBy_of_isPrefix source ?_
    rw [← List.append_assoc]
    exact List.prefix_append _ _
  unfold along
  rw [hstop, hstart]
  simp only [List.length_append]
  refine ⟨?_, rfl, ?_, .inl ⟨?_, rfl⟩⟩ <;>
    simp only [Position.atIndex, List.length_append] <;> omega

end Span

theorem span_of_endOfInput {source text : String} {t : Token} (h : t ∈ (lex source text).tokens)
    (hkind : t.kind = .endOfInput) :
    t.span = ⟨.atIndex source text.toList text.toList.length, .beyond source text.toList⟩ := by
  have htext : Lexed.textOf (pieces text.toList) = text.toList := flatten_pieces _
  rw [lex, Lexed.tokens_ofPieces, htext] at h
  rcases List.mem_append.1 h with h | h
  · exact absurd hkind (Lexed.isProper_words h)
  · obtain rfl := List.mem_singleton.1 h
    rw [Position.advanceBy_of_isPrefix source List.prefix_rfl]
    rfl

theorem liesIn_of_mem_tokens {source text : String} {t : Token}
    (h : t ∈ (lex source text).tokens) : t.span.LiesIn source text.toList := by
  by_cases hkind : t.kind = .endOfInput
  · rw [span_of_endOfInput h hkind]
    exact ⟨Nat.le_refl _, rfl, Nat.lt_succ_self _, .inr rfl⟩
  · obtain ⟨before, lexeme, after, hpieces, rfl⟩ :=
      Lexed.exists_of_mem_words (mem_words_of_kind h hkind)
    have hmem : Piece.lexeme lexeme ∈ pieces text.toList := by
      rw [hpieces]
      exact List.mem_append_right _ List.mem_cons_self
    rw [Lexed.textOf_pieces hpieces]
    exact Span.liesIn_along source (Piece.wellFormed_of_mem_pieces hmem).1

theorem liesIn_of_mem_lex_diagnostics {source text : String} {d : Diagnostic}
    (h : d ∈ (lex source text).diagnostics) : d.span.LiesIn source text.toList := by
  obtain ⟨before, c, after, hpieces, rfl⟩ := Lexed.exists_of_mem_diagnostics h
  rw [Lexed.span_strayDiagnostic, Lexed.textOf_pieces hpieces]
  exact Span.liesIn_along source (List.cons_ne_nil c [])

end Scriptlet
