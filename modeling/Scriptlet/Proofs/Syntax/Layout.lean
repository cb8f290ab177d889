import Mathlib.Data.List.Forall2
import Scriptlet.Proofs.Evaluation.Relocation
import Scriptlet.Proofs.Syntax.RoundTrip

/-! Reading moved tokens. No rule of the grammar looks at a place, not even where a demand is not
met: tokens that differ in their places alone are read as programs that differ in theirs alone, and
what is reported about them says the same about other places. -/

namespace Scriptlet

namespace Grammar
variable (g : Position → Position) {stop : Token}

def Finding.relocate : Finding → Finding
  | expression n => expression (n.relocate g)
  | tier t n => tier t (n.relocate g)
  | chain t left n => chain t (left.relocate g) (n.relocate g)
  | statement n => statement (n.relocate g)
  | statements inBlock ns => statements inBlock (ns.map (Node.relocate g))

theorem lookahead_relocate (ts : List Token) :
    lookahead (stop.relocate g) (ts.map (Token.relocate g)) = (lookahead stop ts).relocate g := by
  cases ts <;> rfl

theorem used_missingExpression_relocate (ts : List Token) :
    (missingExpression (stop.relocate g) (ts.map (Token.relocate g))).used =
      (missingExpression stop ts).used := by
  unfold missingExpression
  rw [lookahead_relocate]
  rfl

theorem Takes.relocate {e : Expectation} {ts rest : List Token} {token : Token}
    {issues : List Diagnostic} (h : Takes stop e ts token rest issues) :
    Takes (stop.relocate g) e (ts.map (Token.relocate g)) (token.relocate g)
      (rest.map (Token.relocate g)) (issues.map (Diagnostic.relocate g)) := by
  cases h with
  | met h => exact .met h
  | unmet h =>
    have hlook : lookahead (stop.relocate g) (ts.map (Token.relocate g)) =
        (lookahead stop ts).relocate g := lookahead_relocate g ts
    have hunmet : (lookahead (stop.relocate g) (ts.map (Token.relocate g))).kind ≠ e.kind := by
      rw [hlook]
      exact h
    have htakes := Takes.unmet hunmet
    rw [hlook] at htakes
    exact htakes

theorem Reads.relocate {f : Finding} {ts rest : List Token} {issues : List Diagnostic}
    (h : Reads stop f ts rest issues) :
    Reads (stop.relocate g) (f.relocate g) (ts.map (Token.relocate g))
      (rest.map (Token.relocate g)) (issues.map (Diagnostic.relocate g)) := by
  -- which rule applies is told by kinds and reserved words, which stay where they are
  have hword {ts : List Token} {k : Keyword} (h : (lookahead stop ts).keyword? ≠ some k) :
      (lookahead (stop.relocate g) (ts.map (Token.relocate g))).keyword? ≠ some k := by
    rw [lookahead_relocate]
    exact h
  induction h with
  | declare hfirst hname hmark _ ih =>
    simp only [Finding.relocate, Node.relocate, List.map_cons, List.map_append,
      Span.relocate_through, ← Token.span_relocate, ← Node.span_relocate]
    exact .declare hfirst (hname.relocate g) (hmark.relocate g) ih
  | logical hfirst _ ih => exact .logical (hword hfirst) ih
  | negation hfirst _ ih =>
    simp only [Finding.relocate, Node.relocate, List.map_cons, Span.relocate_through,
      ← Token.span_relocate, ← Node.span_relocate]
    exact .negation hfirst ih
  | @operands t left n ts _ _ _ _ ht hfirst _ _ ihleft ihchain =>
    rw [List.map_append]
    refine .operands ht ?_ ihleft ihchain
    rw [lookahead_relocate]
    exact hfirst
  | last hop =>
    refine .last ?_
    rw [lookahead_relocate]
    exact hop
  | join hop _ _ ihright ihchain =>
    simp only [Finding.relocate, Node.relocate, Span.relocate_through, ← Node.span_relocate]
      at ihright ihchain
    simp only [Finding.relocate, List.map_cons, List.map_append]
    exact .join hop ihright ihchain
  | group hopen _ hclose ih =>
    simp only [Finding.relocate, Node.relocate, List.map_cons, List.map_append,
      Span.relocate_through, ← Token.span_relocate]
    exact .group hopen ih (hclose.relocate g)
  | access hname => exact .access hname
  | literal htoken => exact .literal htoken
  | signed hsign _ ih =>
    simp only [Finding.relocate, Node.relocate, List.map_cons, Span.relocate_through,
      ← Token.span_relocate, ← Node.span_relocate]
    exact .signed hsign ih
  | block hfirst hopen _ hclose hbrace _ hlast ihcondition ihbody =>
    rw [Finding.relocate, Token.block?_relocate g hfirst]
    simp only [List.map_append, List.map_cons, Span.relocate_through, ← Token.span_relocate]
    exact .block hfirst (hopen.relocate g) ihcondition (hclose.relocate g) (hbrace.relocate g)
      ihbody (hlast.relocate g)
  | @missing ts h =>
    have hlook : lookahead (stop.relocate g) (ts.map (Token.relocate g)) =
        (lookahead stop ts).relocate g := lookahead_relocate g ts
    have hother : ¬ (lookahead (stop.relocate g) (ts.map (Token.relocate g))).startsPrimary := by
      rw [hlook]
      exact h
    have hmissing := Reads.missing hother
    rw [hlook, used_missingExpression_relocate, ← List.map_drop] at hmissing
    exact hmissing
  | breakLoop hfirst hmark =>
    simp only [Finding.relocate, Node.relocate, List.map_cons, ← Token.span_relocate]
    exact .breakLoop hfirst (hmark.relocate g)
  | continueLoop hfirst hmark =>
    simp only [Finding.relocate, Node.relocate, List.map_cons, ← Token.span_relocate]
    exact .continueLoop hfirst (hmark.relocate g)
  | closed hbreak hcontinue _ hn hmark ih =>
    rw [List.map_append]
    exact .closed (hword hbreak) (hword hcontinue) ih ((Node.isBlock_relocate g _).trans hn)
      (hmark.relocate g)
  | closedBlock hbreak hcontinue _ hn hmark ih =>
    exact .closedBlock (hword hbreak) (hword hcontinue) ih ((Node.isBlock_relocate g _).trans hn)
      hmark
  | bareBlock hbreak hcontinue _ hn hmark ih =>
    refine .bareBlock (hword hbreak) (hword hcontinue) ih
      ((Node.isBlock_relocate g _).trans hn) ?_
    rw [lookahead_relocate]
    exact hmark
  | finished => exact .finished
  | closing hbrace => exact .closing hbrace
  | next hfirst _ hless _ ih ihnext =>
    rw [List.map_append]
    refine .next hfirst ih ?_ ihnext
    rw [List.length_map, List.length_map]
    exact hless
  | stalled hfirst _ _ ih ihnext =>
    rw [List.map_append]
    exact .stalled hfirst ih ihnext

theorem statements_relocate (hstop : stop.kind = .endOfInput) (inBlock : Bool) (ts : List Token) :
    let whole := statements stop inBlock ts
    let moved := statements (stop.relocate g) inBlock (ts.map (Token.relocate g))
    moved.value = whole.value.map (Node.relocate g) ∧
      moved.issues = whole.issues.map (Diagnostic.relocate g) := by
  have hreads := reads_statements hstop inBlock ts
  have hgives := (hreads.relocate g).agrees (show (stop.relocate g).kind = .endOfInput from hstop)
  exact ⟨hgives.value_eq, hgives.issues_eq⟩

end Grammar

def Diagnostic.unplaced (d : Diagnostic) : Diagnostic := d.relocate fun _ => .start ""

structure Token.Alike (a b : Token) : Prop where
  kind_eq : a.kind = b.kind
  text_eq : a.text = b.text
  literal_eq : a.literal = b.literal

structure Diagnostic.Alike (a b : Diagnostic) : Prop where
  kind_eq : a.kind = b.kind
  message_eq : a.message = b.message
  context_eq : a.context = b.context
  help_eq : a.help = b.help

theorem Token.alike_iff {a b : Token} : a.Alike b ↔ a.unplaced = b.unplaced := by
  constructor
  · rintro ⟨hkind, htext, hliteral⟩
    simp only [unplaced, relocate, hkind, htext, hliteral]
    rfl
  · intro h
    have hkind : a.unplaced.kind = b.unplaced.kind := congrArg kind h
    have htext : a.unplaced.text = b.unplaced.text := congrArg text h
    have hliteral : a.unplaced.literal = b.unplaced.literal := congrArg literal h
    exact ⟨hkind, htext, hliteral⟩

theorem Diagnostic.alike_iff {a b : Diagnostic} : a.Alike b ↔ a.unplaced = b.unplaced := by
  constructor
  · rintro ⟨hkind, hmessage, hcontext, hhelp⟩
    simp only [unplaced, relocate, hkind, hmessage, hcontext, hhelp]
    rfl
  · intro h
    have hkind : a.unplaced.kind = b.unplaced.kind := congrArg kind h
    have hmessage : a.unplaced.message = b.unplaced.message := congrArg message h
    have hcontext : a.unplaced.context = b.unplaced.context := congrArg context h
    have hhelp : a.unplaced.help = b.unplaced.help := congrArg help h
    exact ⟨hkind, hmessage, hcontext, hhelp⟩

theorem forall₂_alike_tokens_iff {ts us : List Token} :
    List.Forall₂ Token.Alike ts us ↔ ts.map Token.unplaced = us.map Token.unplaced := by
  have halike : Token.Alike = fun a b => a.unplaced = b.unplaced := by
    funext a b
    exact propext Token.alike_iff
  rw [← List.forall₂_eq_eq_eq, List.forall₂_map_left_iff, List.forall₂_map_right_iff, halike]

theorem forall₂_alike_diagnostics_iff {ds es : List Diagnostic} :
    List.Forall₂ Diagnostic.Alike ds es ↔
      ds.map Diagnostic.unplaced = es.map Diagnostic.unplaced := by
  have halike : Diagnostic.Alike = fun a b => a.unplaced = b.unplaced := by
    funext a b
    exact propext Diagnostic.alike_iff
  rw [← List.forall₂_eq_eq_eq, List.forall₂_map_left_iff, List.forall₂_map_right_iff, halike]

namespace Tokens

theorem proper_unplaced (ts : List Token) :
    proper (ts.map Token.unplaced) = (proper ts).map Token.unplaced := List.takeWhile_map ..

theorem unplaced_final (ts : List Token) :
    (final (ts.map Token.unplaced)).unplaced = (final ts).unplaced := by
  unfold final
  rw [List.getLast?_map]
  rcases ts.getLast? with _ | last
  · rfl
  · simp only [Option.map_some]
    rw [show last.unplaced.kind = last.kind from rfl]
    split <;> rfl

theorem unplaced_stop (ts : List Token) :
    (stop (ts.map Token.unplaced)).unplaced = (stop ts).unplaced := by
  have hdrop : (ts.map Token.unplaced).dropWhile isProper =
      (ts.dropWhile isProper).map Token.unplaced := List.dropWhile_map ..
  unfold stop
  rw [hdrop]
  rcases ts.dropWhile isProper with _ | ⟨mark, rest⟩
  · exact unplaced_final ts
  · rfl

end Tokens

structure Parsed.Alike (p q : Parsed) : Prop where
  program_eq : p.program.map Node.unplaced = q.program.map Node.unplaced
  diagnostics : List.Forall₂ Diagnostic.Alike p.diagnostics q.diagnostics

theorem statements_unplaced (ts : List Token) :
    let whole := Grammar.statements (Tokens.stop ts) false (Tokens.proper ts)
    let moved := Grammar.statements (Tokens.stop (ts.map Token.unplaced)).unplaced false
      (Tokens.proper (ts.map Token.unplaced))
    moved.value = whole.value.map Node.unplaced ∧
      moved.issues = whole.issues.map Diagnostic.unplaced := by
  rw [Tokens.unplaced_stop, Tokens.proper_unplaced]
  exact Grammar.statements_relocate _ (Tokens.kind_stop ts) false (Tokens.proper ts)

theorem parse_alike {ts us : List Token} {ds es : List Diagnostic}
    (hts : List.Forall₂ Token.Alike ts us) (hds : List.Forall₂ Diagnostic.Alike ds es) :
    (parse ts ds).Alike (parse us es) := by
  by_cases hempty : ts = []
  · subst hempty
    obtain rfl := List.forall₂_nil_left_iff.1 hts
    exact ⟨rfl, hds⟩
  have hother : us ≠ [] := by
    rintro rfl
    exact hempty (List.forall₂_nil_right_iff.1 hts)
  have hunplaced := forall₂_alike_tokens_iff.1 hts
  obtain ⟨hvalue, hissues⟩ := statements_unplaced ts
  obtain ⟨hvalue', hissues'⟩ := statements_unplaced us
  rw [hunplaced] at hvalue hissues
  rw [parse_eq hempty, parse_eq hother]
  refine ⟨hvalue.symm.trans hvalue', ?_⟩
  refine List.rel_append hds (forall₂_alike_diagnostics_iff.2 ?_)
  exact hissues.symm.trans hissues'

end Scriptlet
