import Scriptlet.Proofs.Syntax.Canonical
import Scriptlet.Proofs.Syntax.Nesting

/-! The extent of the trees that are read without a report. Each of them takes a run of the tokens,
with the trees below it in runs of that run, one behind the other, and its span is that of the run.
So the tokens within the span of a node are those that it is written with. -/

namespace Scriptlet

open Tokens (Ordered)

instance (inner outer : Span) : Decidable (inner.Within outer) :=
  decidable_of_iff (outer.start.index ≤ inner.start.index ∧ inner.stop.index ≤ outer.stop.index)
    ⟨fun h => ⟨h.1, h.2⟩, fun h => ⟨h.1, h.2⟩⟩

structure Node.Covers (n : Node) (run : List Token) : Prop where
  fits : Fits n.slots run
  ends : ∃ first last, run.head? = some first ∧ run.getLast? = some last ∧
    n.span = first.span.through last.span

namespace Node.Covers
variable {n child left right : Node} {ts xs ys : List Token}

theorem of_ends {first last : Token} (hfits : Fits n.slots (first :: ts))
    (hlast : (first :: ts).getLast? = some last) (hspan : n.span = first.span.through last.span) :
    n.Covers (first :: ts) := ⟨hfits, first, last, rfl, hlast, hspan⟩

theorem leaf {token : Token} (hfits : Fits n.slots [token]) (hspan : n.span = token.span) :
    n.Covers [token] := of_ends hfits rfl hspan

theorem prefixed {first : Token} (front : List Token) (h : child.Covers ts)
    (hfits : Fits n.slots (first :: (front ++ ts)))
    (hspan : n.span = first.span.through child.span) : n.Covers (first :: (front ++ ts)) := by
  obtain ⟨_, last, -, hlast, hchild⟩ := h.ends
  have hend : (first :: (front ++ ts)).getLast? = some last := by
    rw [← List.cons_append, List.getLast?_append, hlast]
    rfl
  refine of_ends hfits hend ?_
  rw [hspan, hchild]
  rfl

theorem joined {token : Token} (hleft : left.Covers xs) (hright : right.Covers ys)
    (hfits : Fits n.slots (xs ++ token :: ys)) (hspan : n.span = left.span.through right.span) :
    n.Covers (xs ++ token :: ys) := by
  obtain ⟨first, _, hfirst, -, hleftspan⟩ := hleft.ends
  obtain ⟨_, last, -, hlast, hrightspan⟩ := hright.ends
  refine ⟨hfits, first, last, ?_, ?_, ?_⟩
  · rw [List.head?_append, hfirst]
    rfl
  · rw [List.getLast?_append, List.getLast?_cons, hlast]
    rfl
  · rw [hspan, hleftspan, hrightspan]
    rfl

theorem filter_eq {before run after : List Token} (h : n.Covers run)
    (ho : Ordered (before ++ (run ++ after))) :
    (before ++ (run ++ after)).filter (·.span.Within n.span) = run := by
  obtain ⟨first, last, hfirst, hlast, hspan⟩ := h.ends
  have hofrom : Ordered (run ++ after) := ho.of_append_right
  have horun : Ordered run := hofrom.of_append_left
  have hfirstrun : first ∈ run := List.mem_of_head? hfirst
  have hlastrun : last ∈ run := List.mem_of_getLast? hlast
  -- what is in front of the run stops before the tree starts, and what is behind it starts too late
  have hbefore : ∀ t ∈ before, ¬ t.span.Within n.span := by
    intro t ht hwithin
    have hlt := ho.of_append_left.start_lt t ht
    have hapart := ho.stop_le_start ht (List.mem_append_left after hfirstrun)
    have hle : n.span.start.index ≤ t.span.start.index := hwithin.start_le
    rw [hspan] at hle
    exact absurd (Nat.lt_of_lt_of_le hlt hapart) (Nat.not_lt.2 hle)
  have hrun : ∀ t ∈ run, t.span.Within n.span := by
    intro t ht
    rw [hspan]
    exact Span.within_through (horun.leads_of_head? hfirst ht).start_le
      (horun.leads_of_getLast? hlast ht).stop_le
  have hafter : ∀ t ∈ after, ¬ t.span.Within n.span := by
    intro t ht hwithin
    have hlt := hofrom.of_append_right.start_lt t ht
    have hapart := hofrom.stop_le_start hlastrun ht
    have hle : t.span.stop.index ≤ n.span.stop.index := hwithin.stop_le
    rw [hspan] at hle
    exact absurd (Nat.lt_of_le_of_lt hapart hlt) (Nat.not_lt.2 hle)
  rw [List.filter_append, List.filter_append, List.filter_eq_nil_iff.2 (by simpa using hbefore),
    List.filter_eq_self.2 (by simpa using hrun), List.filter_eq_nil_iff.2 (by simpa using hafter),
    List.nil_append, List.append_nil]

end Node.Covers

/-- The trees cover runs of the tokens, one behind the other, and so do the trees below each. -/
inductive Strung : List Node → List Token → Prop
  | nil {ts} : Strung [] ts
  | cons {n ns run after} (before : List Token) (hn : Node.Covers n run)
      (hchildren : Strung n.children run) (hrest : Strung ns after) :
      Strung (n :: ns) (before ++ (run ++ after))

namespace Strung
variable {n : Node} {ns : List Node} {ts run : List Token}

theorem single (before after : List Token) (hn : n.Covers run) (hchildren : Strung n.children run) :
    Strung [n] (before ++ (run ++ after)) := .cons before hn hchildren .nil

theorem last (before : List Token) (hn : n.Covers run) (hchildren : Strung n.children run) :
    Strung [n] (before ++ run) := by
  simpa using single before [] hn hchildren

theorem widen (h : Strung ns ts) (before after : List Token) :
    Strung ns (before ++ (ts ++ after)) := by
  induction h generalizing before with
  | nil => exact .nil
  | cons front hn hchildren _ _ ih =>
    simpa using Strung.cons (before ++ front) hn hchildren (ih [])

theorem exists_run (h : Strung ns ts) {m : Node} (hm : m ∈ Program.nodes ns) :
    ∃ run, run <:+: ts ∧ m.Covers run ∧ Strung m.children run := by
  induction h with
  | nil => cases hm
  | @cons n ns run after before hn hchildren _ ihchildren ihrest =>
    have hrun : run <:+: before ++ (run ++ after) := ⟨before, after, List.append_assoc ..⟩
    have hafter : after <:+: before ++ (run ++ after) :=
      ((List.suffix_append run after).trans (List.suffix_append before _)).isInfix
    rw [Program.nodes_cons, Node.nodes_eq, List.mem_append, List.mem_cons] at hm
    rcases hm with (rfl | hm) | hm
    · exact ⟨run, hrun, hn, hchildren⟩
    · obtain ⟨inner, hinner, hcovers⟩ := ihchildren hm
      exact ⟨inner, hinner.trans hrun, hcovers⟩
    · obtain ⟨later, hlater, hcovers⟩ := ihrest hm
      exact ⟨later, hlater.trans hafter, hcovers⟩

theorem apart (h : Strung ns ts) (ho : Ordered ts) :
    ns.Pairwise fun a b => a.span.stop.index ≤ b.span.start.index := by
  induction h with
  | nil => exact .nil
  | @cons n ns run after before hn _ hrest _ ih =>
    have hofrom : Ordered (run ++ after) := ho.of_append_right
    refine List.pairwise_cons.2 ⟨fun m hm => ?_, ih hofrom.of_append_right⟩
    have hnode : m ∈ Program.nodes ns := Program.mem_nodes.2 ⟨m, hm, m.self_mem_nodes⟩
    obtain ⟨later, hlater, hcovers, -⟩ := hrest.exists_run hnode
    obtain ⟨_, last, -, hlast, hnspan⟩ := hn.ends
    obtain ⟨first, _, hfirst, -, hmspan⟩ := hcovers.ends
    have hmem : first ∈ after := hlater.subset (List.mem_of_head? hfirst)
    rw [hnspan, hmspan]
    exact hofrom.stop_le_start (List.mem_of_getLast? hlast) hmem

end Strung

def Phrase.Covered : Phrase → List Token → Prop
  | .expression n, ts | .tier _ n, ts => n.Covers ts ∧ Strung n.children ts
  | .statement n, ts =>
    ∃ run mark, ts = run ++ [mark] ∧ n.Covers run ∧ Strung n.children run
  | .statements ns, ts => Strung ns ts

theorem Spelled.covered {p : Phrase} {ts : List Token} (h : Spelled p ts) : p.Covered ts := by
  induction h with
  | @declare word name mark _ _ hword hname hmark hvalue ih =>
    obtain ⟨hcovers, hchildren⟩ := ih
    have hfits := (Spelled.declare hword hname hmark hvalue).written.2
    exact ⟨.prefixed [name, mark] hcovers hfits rfl, .last [word, name, mark] hcovers hchildren⟩
  | logical _ ih | operand _ _ ih => exact ih
  | @negation word _ _ hword h ih =>
    obtain ⟨hcovers, hchildren⟩ := ih
    have hfits := (Spelled.negation hword h).written.2
    exact ⟨.prefixed [] hcovers hfits rfl, .last [word] hcovers hchildren⟩
  | @join _ token _ _ _ _ _ hop hadmits hleft hright ihleft ihright =>
    obtain ⟨hcoversleft, hchildrenleft⟩ := ihleft
    obtain ⟨hcoversright, hchildrenright⟩ := ihright
    have hfits := (Spelled.join hop hadmits hleft hright).written.2
    exact ⟨.joined hcoversleft hcoversright hfits rfl,
      .cons [] hcoversleft hchildrenleft (.last [token] hcoversright hchildrenright)⟩
  | @group opening close _ ts hopen h hclose ih =>
    obtain ⟨hcovers, hchildren⟩ := ih
    have hfits := (Spelled.group hopen h hclose).written.2
    have hlast : (opening :: (ts ++ [close])).getLast? = some close := by
      simp [List.getLast?_cons, List.getLast?_append]
    exact ⟨.of_ends hfits hlast rfl, .single [opening] [close] hcovers hchildren⟩
  | access | literal => exact ⟨.leaf (.single rfl) rfl, .nil⟩
  | @signed sign _ _ _ hsign h ih =>
    obtain ⟨hcovers, hchildren⟩ := ih
    have hfits := (Spelled.signed hsign h).written.2
    exact ⟨.prefixed [] hcovers hfits rfl, .last [sign] hcovers hchildren⟩
  | @block word opening closing brace last make condition body xs ys hword hopen hcondition hclose
      hbrace hbody hlast ihcondition ihbody =>
    obtain ⟨hcovers, hchildren⟩ := ihcondition
    have hfits := (Spelled.block hword hopen hcondition hclose hbrace hbody hlast).written.2
    have hend : (word :: opening :: (xs ++ closing :: brace :: (ys ++ [last]))).getLast? =
        some last := by
      simp [List.getLast?_cons, List.getLast?_append]
    have hstatements : Strung body (closing :: brace :: (ys ++ [last])) :=
      Strung.widen ihbody [closing, brace] [last]
    obtain ⟨-, rfl⟩ | ⟨-, rfl⟩ := Token.block?_eq_some hword <;>
      exact ⟨.of_ends hfits hend rfl, .cons [word, opening] hcovers hchildren hstatements⟩
  | breakLoop hword | continueLoop hword =>
    exact ⟨[_], _, rfl, .leaf (.single (Token.form_of_keyword? hword)) rfl, .nil⟩
  | closed _ _ ih => exact ⟨_, _, rfl, ih⟩
  | finished => exact .nil
  | @next n ns _ ys _ _ ih ihnext =>
    obtain ⟨run, mark, rfl, hcovers, hchildren⟩ := ih
    have hrest : Strung ns (mark :: ys) := by
      simpa using Strung.widen ihnext [mark] []
    rw [List.append_assoc]
    exact .cons [] hcovers hchildren hrest
  | bare _ _ _ _ ih ihnext =>
    obtain ⟨hcovers, hchildren⟩ := ih
    exact .cons [] hcovers hchildren ihnext

theorem strung_parseText {source text : String}
    (hclean : (parse (lex source text).tokens []).diagnostics = []) :
    Strung (parseText source text).program (lex source text).tokens := by
  have hts := lex_tokens_ne_nil source text
  have hspelled := (parse_diagnostics_eq_iff hts).1 hclean
  have hstrung : Strung _ _ := hspelled.covered
  have hall := hstrung.widen [] [Tokens.stop (lex source text).tokens]
  rw [List.nil_append, proper_append_stop_lex, parse_eq hts] at hall
  rw [parseText, parse_eq hts]
  exact hall

/-- The spans of a program nest as its nodes do, whatever is missing in the text: a child lies
within its parent, siblings are in the order of the text, and neither two operands of an operator
nor two statements of one list start at one place. If the grammar reports nothing, siblings lie
apart, and the span of each node runs from the first to the last of the tokens that it is written
with, without the semicolon behind a statement. -/
theorem spans_nest (source text : String) :
    let p := (parseText source text).program
    (∀ n ∈ p.nodes, n.Nests) ∧
      p.Pairwise (fun a b => a.span.start.index < b.span.start.index) ∧
      ((parse (lex source text).tokens []).diagnostics = [] →
        p.Pairwise (fun a b => a.span.stop.index ≤ b.span.start.index) ∧
        ∀ n ∈ p.nodes,
          n.children.Pairwise (fun a b => a.span.stop.index ≤ b.span.start.index) ∧
          n.Covers ((lex source text).tokens.filter (·.span.Within n.span))) := by
  intro p
  have hrow := row_parseText source text
  refine ⟨hrow.nests, hrow.starts_lt, fun hclean => ?_⟩
  have hordered := ordered_lex source text
  have hstrung : Strung p (lex source text).tokens := strung_parseText hclean
  refine ⟨hstrung.apart hordered, fun n hn => ?_⟩
  obtain ⟨run, ⟨before, after, htokens⟩, hcovers, hchildren⟩ := hstrung.exists_run hn
  rw [List.append_assoc] at htokens
  rw [← htokens] at hordered ⊢
  have hrun : Ordered run := hordered.of_append_right.of_append_left
  rw [hcovers.filter_eq hordered]
  exact ⟨hchildren.apart hrun, hcovers⟩

theorem spans_of_product :
    let mark (c : Char) (i : Nat) : Token := .ofText [c] (.single ⟨"s", i, 0, i⟩)
    let a := mark 'a' 0
    let b := mark 'b' 2
    let c := mark 'c' 4
    let product := Node.binary (.access a) .multiply (.access b) (a.span.through b.span)
    (parse (lex "s" "a*b;c;").tokens []).diagnostics = [] ∧
      (parseText "s" "a*b;c;").program = [product, .access c] ∧
      product.Nests ∧ a.span.start.index < c.span.start.index ∧
      b.span.stop.index ≤ c.span.start.index ∧ a.span.stop.index ≤ b.span.start.index ∧
      product.Covers [a, mark '*' 1, b] := by
  intro mark a b c product
  have hlex : lex "s" "a*b;c;" =
      ⟨[a, mark '*' 1, b, mark ';' 3, c, mark ';' 5, .endOfInput ⟨"s", 6, 0, 6⟩], []⟩ := by
    have hpieces : pieces ['a', '*', 'b', ';', 'c', ';'] =
        [.lexeme ['a'], .lexeme ['*'], .lexeme ['b'], .lexeme [';'], .lexeme ['c'],
          .lexeme [';']] := by
      rw [pieces_single, pieces_single, pieces_single, pieces_semicolon, pieces_single,
        pieces_semicolon, pieces_nil] <;> decide
    exact congrArg (Lexed.ofPieces (.start "s")) hpieces
  have hname {x : Token} (hx : x.kind = .identifier) (t : Tier) :
      Spelled (.tier t (.access x)) [x] := (Spelled.access hx).of_primary t
  have hstar : Tier.factor.operator? (mark '*' 1) = some .multiply := rfl
  have hadmits : Tier.factor.admits (.access a) := rfl
  have hfactor : Spelled (.tier .factor product) ([a] ++ mark '*' 1 :: [b]) :=
    .join hstar hadmits (hname rfl .factor) (hname rfl .power)
  have hlogical : Spelled (.tier .logical product) [a, mark '*' 1, b] :=
    .operand (by decide) (.operand (by decide) (.operand (by decide) hfactor))
  have hstatements : Spelled (.statements [product, .access c])
      [a, mark '*' 1, b, mark ';' 3, c, mark ';' 5] :=
    .next (.closed (.logical hlogical) rfl)
      (.next (.closed (.logical (hname rfl .logical)) rfl) .finished)
  have hparse : parse (lex "s" "a*b;c;").tokens [] = ⟨[product, .access c], []⟩ := by
    refine (parse_eq_iff_spelled (lex_tokens_ne_nil "s" "a*b;c;") []).2 ?_
    rw [hlex]
    exact hstatements
  have hprogram : (parseText "s" "a*b;c;").program = [product, .access c] := by
    rw [hlex] at hparse
    rw [parseText, hlex]
    exact congrArg Parsed.program hparse
  obtain ⟨hnests, hstarts, hexact⟩ := spans_nest "s" "a*b;c;"
  have hclean : (parse (lex "s" "a*b;c;").tokens []).diagnostics = [] := by rw [hparse]
  obtain ⟨hapart, hcovers⟩ := hexact hclean
  have hproduct : product ∈ (parseText "s" "a*b;c;").program.nodes := by
    rw [hprogram]
    exact List.mem_append_left _ product.self_mem_nodes
  obtain ⟨hchildren, hcovers⟩ := hcovers product hproduct
  rw [hprogram] at hstarts hapart
  rw [hlex] at hcovers
  refine ⟨hclean, hprogram, hnests product hproduct, ?_, ?_, ?_, hcovers⟩
  · exact List.rel_of_pairwise_cons hstarts List.mem_cons_self
  · exact List.rel_of_pairwise_cons hapart List.mem_cons_self
  · exact List.rel_of_pairwise_cons hchildren List.mem_cons_self

end Scriptlet
