import Scriptlet.Proofs.Evaluation.Occurrence
import Scriptlet.Proofs.Evaluation.Signals
import Scriptlet.Proofs.Syntax.Extent
import Scriptlet.Proofs.Token.Position

/-! Positions from end to end. The token stream has places of the text only; the grammar joins them
from left to right, and what is told about a run points at a node. So no position that is handed
out is made up. -/

namespace Scriptlet

namespace Grammar
variable {source : String} {cs : List Char} {stop : Token} {ts : List Token}

theorem Joins.liesIn (hlies : ∀ t ∈ ts ++ [stop], t.span.LiesIn source cs)
    (hordered : (ts ++ [stop]).Pairwise fun a b => a.span.start.index ≤ b.span.start.index)
    {s : Span} (h : Joins stop ts s) : s.LiesIn source cs := by
  obtain ⟨us, last, ⟨before, rfl⟩, hlast, rfl⟩ := h
  obtain ⟨tail, htail⟩ := exists_append_stop_eq stop us
  rw [List.append_assoc, htail] at hlies hordered
  rw [htail] at hlast
  have hfirst := hlies _ (List.mem_append_right before List.mem_cons_self)
  have hbehind := (List.pairwise_cons.1 (List.pairwise_append.1 hordered).2.1).1
  refine hfirst.through (hlies last (List.mem_append_right before hlast)) ?_
  rcases List.mem_cons.1 hlast with rfl | hlast
  · exact Nat.le_refl _
  · exact hbehind last hlast

end Grammar

theorem liesIn_of_mem_nodes {source text : String} {n : Node} {s : Span}
    (hn : n ∈ (parseText source text).program.nodes) (hs : s ∈ n.spans) :
    s.LiesIn source text.toList := by
  have hall := proper_append_stop_lex source text
  have hordered := (pairwise_tokens_lex source text).imp fun h => Nat.le_of_lt h.1
  rw [parseText, parse_eq (lex_tokens_ne_nil source text)] at hn
  have hjoins := (reads_proper (lex source text).tokens).located n hn s hs
  refine hjoins.liesIn ?_ ?_ <;> rw [hall]
  · exact fun t => liesIn_of_mem_tokens
  · exact hordered

theorem liesIn_of_mem_parseText {source text : String} {d : Diagnostic}
    (hd : d ∈ (parseText source text).diagnostics) : d.span.LiesIn source text.toList := by
  rw [parseText, parse_eq (lex_tokens_ne_nil source text)] at hd
  rcases List.mem_append.1 hd with hd | hd
  · exact liesIn_of_mem_lex_diagnostics hd
  · obtain ⟨found, hmeets, hcomplaint⟩ :=
      (reads_proper (lex source text).tokens).reports.complaint d hd
    have hfound := hmeets.mem
    rw [proper_append_stop_lex] at hfound
    rw [hcomplaint.span_eq]
    exact liesIn_of_mem_tokens hfound

theorem Program.exists_span_of_mem_run {limit : Nat} {p : Program} {m m' : Machine}
    {e : Evaluation} (h : p.run limit m = some (e, m')) {d : Diagnostic} (hd : d ∈ e.diagnostics) :
    ∃ n ∈ p.nodes, d.span = n.span := by
  obtain ⟨root, hroot, m₁, o, m₂, hrun, rfl | ⟨word, -, rfl⟩⟩ := exists_of_mem_run h hd
  · obtain ⟨_, -, hruns⟩ := root.realizes limit m₁.scopes m₁.environment _ m₂ hrun
    obtain ⟨_, n, hvisits, hfault⟩ := hruns.blames d rfl
    exact ⟨n, mem_nodes.2 ⟨root, hroot, hvisits.mem_nodes⟩, hfault.span_eq⟩
  · exact ⟨root, mem_nodes.2 ⟨root, hroot, root.self_mem_nodes⟩, rfl⟩

theorem exists_of_mem_evaluateText {limit : Nat} {source text : String} {env env' : Environment}
    {e : Evaluation} (h : evaluateText limit source text env = some (e, env')) {d : Diagnostic}
    (hd : d ∈ e.diagnostics) :
    d ∈ (parseText source text).diagnostics ∨
      ∃ n ∈ (parseText source text).program.nodes, d.span = n.span := by
  by_cases hclean : (parseText source text).diagnostics = []
  · rw [evaluateText_of_clean hclean] at h
    obtain ⟨⟨r, m⟩, hrun, heq⟩ := Option.map_eq_some_iff.1 h
    cases heq
    exact .inr (Program.exists_span_of_mem_run hrun hd)
  · rw [evaluateText_of_defects hclean] at h
    cases h
    exact .inl hd

theorem liesIn_of_mem_evaluateText {limit : Nat} {source text : String} {env env' : Environment}
    {e : Evaluation} (h : evaluateText limit source text env = some (e, env')) {d : Diagnostic}
    (hd : d ∈ e.diagnostics) : d.span.LiesIn source text.toList := by
  rcases exists_of_mem_evaluateText h hd with hread | ⟨n, hn, hspan⟩
  · exact liesIn_of_mem_parseText hread
  · rw [hspan]
    exact liesIn_of_mem_nodes hn n.span_mem_spans

/-- Every position that a text leads to is a place of the text: those of its tokens, those of the
nodes and the declared names of its program, whatever is missing in it, and those of all that its
evaluation reports. A span starts at a character of the text or at its end, and ends behind its
start, at a place of the text or with the mark of the end of the input. -/
theorem positions_lie_in_text (source text : String) :
    (∀ t ∈ (lex source text).tokens, t.span.LiesIn source text.toList ∧
      (t.kind = .endOfInput → t.span.stop = .beyond source text.toList)) ∧
    (∀ n ∈ (parseText source text).program.nodes, ∀ s ∈ n.spans,
      s.LiesIn source text.toList) ∧
    ∀ limit env e env', evaluateText limit source text env = some (e, env') →
      ∀ d ∈ e.diagnostics, d.span.LiesIn source text.toList := by
  refine ⟨fun t ht => ⟨liesIn_of_mem_tokens ht, fun hkind => ?_⟩, ?_, ?_⟩
  · rw [span_of_endOfInput ht hkind]
  · exact fun n hn s hs => liesIn_of_mem_nodes hn hs
  · exact fun limit env e env' h d hd => liesIn_of_mem_evaluateText h hd

theorem positions_of_open_line :
    let x : Token := .ofText ['x'] ⟨⟨"s", 1, 1, 0⟩, ⟨"s", 2, 1, 1⟩⟩
    let mark : Token := .endOfInput ⟨"s", 2, 1, 1⟩
    (mark ∈ (lex "s" "\nx").tokens ∧ mark.span.LiesIn "s" ['\n', 'x'] ∧
      mark.span.stop = .beyond "s" ['\n', 'x']) ∧
    (.access x ∈ (parseText "s" "\nx").program.nodes ∧ x.span.LiesIn "s" ['\n', 'x']) ∧
    ∃ d, evaluateText 0 "s" "\nx" .initial = some (⟨[], [d]⟩, .initial) ∧ d.span = mark.span ∧
      d.span.LiesIn "s" ['\n', 'x'] := by
  intro x mark
  obtain ⟨htokens, hnodes, hreports⟩ := positions_lie_in_text "s" "\nx"
  have hpieces : pieces "\nx".toList = [.blank '\n', .lexeme ['x']] := by
    have hline : pieces ('\n' :: ['x']) = .blank '\n' :: pieces ['x'] :=
      pieces_blank (by decide) ['x']
    have hname : pieces ('x' :: ([] ++ [])) = .lexeme ['x'] :: pieces [] :=
      pieces_eq_lexeme (by decide) (by decide)
    rw [pieces_nil] at hname
    exact hline.trans (congrArg _ hname)
  have hlex : lex "s" "\nx" = ⟨[x, mark], []⟩ := by
    rw [lex, hpieces]
    rfl
  have hmark : mark ∈ (lex "s" "\nx").tokens := by
    rw [hlex]
    exact List.mem_cons_of_mem x List.mem_cons_self
  have hparse : parseText "s" "\nx" =
      ⟨[.access x], [Expectation.endOfStatement.diagnostic mark]⟩ := by
    have hname : Spelled (.tier .primary (.access x)) [x] := .access rfl
    have hexpression : Grammar.Reads mark (.expression (.access x)) [x] [] [] :=
      Grammar.produces rfl (.logical (hname.of_primary .logical)) []
        (Tier.rests_of_kind (by decide) _)
    have hstatement : Grammar.Reads mark (.statement (.access x)) [x] []
        [Expectation.endOfStatement.diagnostic mark] :=
      .closed (by decide) (by decide) hexpression rfl (.unmet (by decide))
    have hreads : Grammar.Reads mark (.statements false [.access x]) [x] []
        [Expectation.endOfStatement.diagnostic mark] :=
      .next rfl hstatement (Nat.le_refl 0) .finished
    rw [parseText, hlex]
    exact (parse_eq_iff (List.cons_ne_nil _ _) [] _).2 ⟨[], hreads⟩
  have hnode : .access x ∈ (parseText "s" "\nx").program.nodes := by
    rw [hparse]
    exact List.mem_cons_self
  have hrun : evaluateText 0 "s" "\nx" .initial =
      some (⟨[], [Expectation.endOfStatement.diagnostic mark]⟩, .initial) := by
    rw [evaluateText_of_defects (by simp [hparse]), hparse]
  exact ⟨⟨hmark, (htokens mark hmark).1, (htokens mark hmark).2 rfl⟩,
    ⟨hnode, hnodes _ hnode _ List.mem_cons_self⟩,
    ⟨_, hrun, rfl, hreports 0 .initial _ _ hrun _ List.mem_cons_self⟩⟩

end Scriptlet
