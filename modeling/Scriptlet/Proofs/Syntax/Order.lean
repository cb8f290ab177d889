import Mathlib.Data.List.MinMax
import Scriptlet.Proofs.Syntax.Concatenation
import Scriptlet.Proofs.Syntax.Recovery
import Scriptlet.Proofs.Token.Position

/-! The order of the reports. The tokens of a text stand in the order of their places, and the
grammar reports what it has come to and never goes back. So the reports of the grammar stand in the
order of their places as well, behind those about stray characters. -/

namespace Scriptlet

namespace Span

structure Leads (a b : Span) : Prop where
  start_le : a.start.index ≤ b.start.index
  stop_le : a.stop.index ≤ b.stop.index

theorem Leads.refl (a : Span) : a.Leads a := ⟨Nat.le_refl _, Nat.le_refl _⟩

end Span

namespace Tokens

structure Ordered (ts : List Token) : Prop where
  start_lt : ∀ t ∈ ts, t.span.start.index < t.span.stop.index
  apart : ts.Pairwise fun a b => a.span.stop.index ≤ b.span.start.index

namespace Ordered

variable {ts xs ys : List Token}

theorem sublist (h : Ordered ts) (hxs : xs.Sublist ts) : Ordered xs :=
  ⟨fun t ht => h.start_lt t (hxs.subset ht), h.apart.sublist hxs⟩

theorem of_append_left (h : Ordered (xs ++ ys)) : Ordered xs :=
  h.sublist (List.sublist_append_left xs ys)

theorem of_append_right (h : Ordered (xs ++ ys)) : Ordered ys :=
  h.sublist (List.sublist_append_right xs ys)

theorem stop_le_start (h : Ordered (xs ++ ys)) {x y : Token} (hx : x ∈ xs) (hy : y ∈ ys) :
    x.span.stop.index ≤ y.span.start.index :=
  (List.pairwise_append.1 h.apart).2.2 x hx y hy

theorem leads_of_append (h : Ordered (xs ++ ys)) {x y : Token} (hx : x ∈ xs) (hy : y ∈ ys) :
    x.span.Leads y.span := by
  have hxlt := h.of_append_left.start_lt x hx
  have hylt := h.of_append_right.start_lt y hy
  have hapart := h.stop_le_start hx hy
  exact ⟨by omega, by omega⟩

theorem leads_of_head? {first t : Token} (h : Ordered ts)
    (hfirst : ts.head? = some first) (ht : t ∈ ts) : first.span.Leads t.span := by
  obtain ⟨later, rfl⟩ := List.head?_eq_some_iff.1 hfirst
  rw [← List.singleton_append] at h
  rcases List.mem_cons.1 ht with rfl | ht
  · exact .refl _
  · exact h.leads_of_append List.mem_cons_self ht

theorem leads_of_getLast? {last t : Token} (h : Ordered ts)
    (hlast : ts.getLast? = some last) (ht : t ∈ ts) : t.span.Leads last.span := by
  obtain ⟨earlier, rfl⟩ := List.getLast?_eq_some_iff.1 hlast
  rcases List.mem_append.1 ht with ht | ht
  · exact h.leads_of_append ht List.mem_cons_self
  · obtain rfl := List.mem_singleton.1 ht
    exact .refl _

end Ordered
end Tokens

open Tokens (Ordered)

namespace Grammar
variable {stop : Token} {ts rest : List Token}

theorem ordered_suffix (ho : Ordered (ts ++ [stop])) (h : rest <:+ ts) :
    Ordered (rest ++ [stop]) := by
  obtain ⟨before, rfl⟩ := h
  rw [List.append_assoc] at ho
  exact ho.of_append_right

theorem lookahead_leads (ho : Ordered (ts ++ [stop])) {t : Token} (ht : t ∈ ts ++ [stop]) :
    (lookahead stop ts).span.Leads t.span := by
  obtain ⟨tail, htail⟩ := exists_append_stop_eq stop ts
  refine ho.leads_of_head? ?_ ht
  rw [htail, List.head?_cons]

theorem Meets.leads {t : Token} (h : Meets stop ts rest t) (ho : Ordered (ts ++ [stop])) :
    (lookahead stop ts).span.Leads t.span ∧ t.span.Leads (lookahead stop rest).span := by
  refine ⟨lookahead_leads ho h.mem, ?_⟩
  obtain ⟨taken, rfl, ht | rfl⟩ := h
  · obtain ⟨tail, htail⟩ := exists_append_stop_eq stop rest
    rw [List.append_assoc, htail] at ho
    exact ho.leads_of_append ht List.mem_cons_self
  · exact .refl _

theorem lookahead_leads_lookahead (ho : Ordered (ts ++ [stop])) (h : rest <:+ ts) :
    (lookahead stop ts).span.Leads (lookahead stop rest).span :=
  ((Meets.first h).leads ho).2

theorem Told.ascending {issues : List Diagnostic} (h : Told stop ts rest issues)
    (ho : Ordered (ts ++ [stop])) :
    (∀ d ∈ issues, (lookahead stop ts).span.start.index ≤ d.span.start.index) ∧
      issues.Pairwise fun a b => a.span.start.index ≤ b.span.start.index := by
  induction h with
  | silent => exact ⟨List.forall_mem_nil _, .nil⟩
  | report h hd _ ih =>
    obtain ⟨hbehind, hpairwise⟩ := ih (ordered_suffix ho h)
    have hfound := (lookahead_leads_lookahead ho h).start_le
    rw [List.forall_mem_cons, List.pairwise_cons, hd.span_eq]
    exact ⟨⟨hfound, fun d hd => Nat.le_trans hfound (hbehind d hd)⟩, hbehind, hpairwise⟩

end Grammar

theorem ordered_lex (source text : String) : Ordered (lex source text).tokens :=
  ⟨fun _ ht => (liesIn_of_mem_tokens ht).start_lt,
    (pairwise_tokens_lex source text).imp And.right⟩

theorem ordered_proper_lex (source text : String) :
    Ordered (Tokens.proper (lex source text).tokens ++ [Tokens.stop (lex source text).tokens]) := by
  rw [proper_append_stop_lex]
  exact ordered_lex source text

theorem parseText_diagnostics_eq (source text : String) :
    (parseText source text).diagnostics =
      (lex source text).diagnostics ++ (parse (lex source text).tokens []).diagnostics := by
  have hts := lex_tokens_ne_nil source text
  rw [parseText, parse_eq hts, parse_eq hts, List.nil_append]

theorem told_parse (source text : String) :
    Grammar.Told (Tokens.stop (lex source text).tokens) (Tokens.proper (lex source text).tokens) []
      (parse (lex source text).tokens []).diagnostics := by
  have htold := (reads_proper (lex source text).tokens).told
  rw [parse_eq (lex_tokens_ne_nil source text), List.nil_append]
  exact htold.leave List.nil_suffix

/-- The report that comes first in the text. Of those that start at one place it is the first. -/
def leftmost? (ds : List Diagnostic) : Option Diagnostic := ds.argmin (·.span.start.index)

theorem leftmost?_eq_head? {ds : List Diagnostic}
    (h : ds.Pairwise fun a b => a.span.start.index ≤ b.span.start.index) :
    leftmost? ds = ds.head? := by
  cases ds with
  | nil => rfl
  | cons d ds =>
    have hbehind := (List.pairwise_cons.1 h).1
    rw [leftmost?, List.argmin_cons]
    cases hleast : ds.argmin (·.span.start.index) with
    | none => rfl
    | some least =>
      have hle := hbehind least (List.argmin_mem hleast)
      exact if_neg (Nat.not_lt.2 hle)

/-- What is reported about a text are its stray characters and then what the grammar demands in
vain. Either part goes from left to right, the second with a token of the text under each report, so
the first report is the leftmost stray character, or the leftmost demand if there is none. -/
theorem diagnostics_in_order (source text : String) :
    let strays := (lex source text).diagnostics
    let demands := (parse (lex source text).tokens []).diagnostics
    (parseText source text).diagnostics = strays ++ demands ∧
      (∀ d ∈ strays, d.kind = .illegalCharacter ∨ d.kind = .expectedCharacter) ∧
      strays.Pairwise (fun a b => a.span.start.index < b.span.start.index) ∧
      (∀ d ∈ demands,
        d.kind = .expectedToken ∧ ∃ t ∈ (lex source text).tokens, d.span = t.span) ∧
      demands.Pairwise (fun a b => a.span.start.index ≤ b.span.start.index) ∧
      (parseText source text).diagnostics.head? = (leftmost? strays).or (leftmost? demands) := by
  intro strays demands
  have hdiagnostics : (parseText source text).diagnostics = strays ++ demands :=
    parseText_diagnostics_eq source text
  have hstrays : strays.Pairwise fun a b => a.span.start.index < b.span.start.index :=
    Lexed.pairwise_diagnostics
  have htold := told_parse source text
  have hdemands : demands.Pairwise fun a b => a.span.start.index ≤ b.span.start.index :=
    (htold.ascending (ordered_proper_lex source text)).2
  refine ⟨hdiagnostics, fun _ => kind_of_mem_lex_diagnostics, hstrays, fun d hd => ?_, hdemands, ?_⟩
  · obtain ⟨found, hmeets, hcomplaint⟩ := htold.reports.complaint d hd
    have hfound := hmeets.mem
    rw [proper_append_stop_lex] at hfound
    exact ⟨hcomplaint.kind, found, hfound, hcomplaint.span_eq⟩
  · have hleast : leftmost? strays = strays.head? := leftmost?_eq_head? (hstrays.imp Nat.le_of_lt)
    rw [hdiagnostics, List.head?_append, hleast, leftmost?_eq_head? hdemands]

theorem diagnostics_of_two_strays :
    let bang := Lexed.strayDiagnostic '!' (.single ⟨"s", 0, 0, 0⟩)
    let sign := Lexed.strayDiagnostic '@' (.single ⟨"s", 2, 0, 2⟩)
    let y := Token.ofText ['y'] (.single ⟨"s", 4, 0, 4⟩)
    let mark := Token.endOfInput ⟨"s", 5, 0, 5⟩
    let lacking := Expectation.endOfStatement.diagnostic
    (parseText "s" "!x@ y").diagnostics = [bang, sign, lacking y, lacking mark] ∧
      (bang.kind = .illegalCharacter ∨ bang.kind = .expectedCharacter) ∧
      bang.span.start.index < sign.span.start.index ∧
      ((lacking y).kind = .expectedToken ∧
        ∃ t ∈ (lex "s" "!x@ y").tokens, (lacking y).span = t.span) ∧
      (lacking y).span.start.index ≤ (lacking mark).span.start.index ∧
      (leftmost? [bang, sign]).or (leftmost? [lacking y, lacking mark]) = some bang := by
  intro bang sign y mark lacking
  let x := Token.ofText ['x'] (.single ⟨"s", 1, 0, 1⟩)
  have hpieces : pieces ['!', 'x', '@', ' ', 'y'] =
      [.stray '!', .lexeme ['x'], .stray '@', .blank ' ', .lexeme ['y']] := by
    rw [pieces_of_longest_eq_nil, pieces_single, pieces_of_longest_eq_nil, pieces_blank,
      pieces_single, pieces_nil] <;> decide
  have hlex : lex "s" "!x@ y" = ⟨[x, y, mark], [bang, sign]⟩ :=
    congrArg (Lexed.ofPieces (.start "s")) hpieces
  have hname {t : Token} (ht : t.kind = .identifier) : Spelled (.expression (.access t)) [t] :=
    .logical ((Spelled.access ht).of_primary .logical)
  have hx : Grammar.Reads mark (.statement (.access x)) [x, y] [y] [lacking y] := by
    have hends : Tier.Rests .logical y := Tier.rests_of_kind (by decide) _
    exact .closed (by decide) (by decide) (Grammar.produces rfl (hname rfl) [y] hends) rfl
      (.unmet (by decide))
  have hy : Grammar.Reads mark (.statement (.access y)) [y] [] [lacking mark] := by
    have hends : Tier.Rests .logical mark := Tier.rests_of_kind (by decide) _
    exact .closed (by decide) (by decide) (Grammar.produces rfl (hname rfl) [] hends) rfl
      (.unmet (by decide))
  have hreads : Grammar.Reads mark (.statements false [.access x, .access y]) [x, y] []
      [lacking y, lacking mark] :=
    .next rfl hx (Nat.le_refl 1) (.next rfl hy (Nat.le_refl 0) .finished)
  have hparse : parse [x, y, mark] [] =
      ⟨[.access x, .access y], [lacking y, lacking mark]⟩ :=
    (parse_eq_iff (List.cons_ne_nil _ _) [] _).2 ⟨[], hreads⟩
  have hdemands : (parse (lex "s" "!x@ y").tokens []).diagnostics = [lacking y, lacking mark] := by
    rw [hlex, hparse]
  obtain ⟨hall, hkind, hless, htoken, hle, hfirst⟩ := diagnostics_in_order "s" "!x@ y"
  rw [hdemands, hlex] at hall hfirst
  rw [hlex] at hkind hless
  rw [hdemands] at htoken hle
  rw [hall] at hfirst ⊢
  refine ⟨rfl, hkind bang List.mem_cons_self, ?_, htoken _ List.mem_cons_self, ?_, hfirst.symm⟩
  · exact List.rel_of_pairwise_cons hless List.mem_cons_self
  · exact List.rel_of_pairwise_cons hle List.mem_cons_self

end Scriptlet
