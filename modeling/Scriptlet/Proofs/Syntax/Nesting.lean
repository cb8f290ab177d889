import Scriptlet.Proofs.Syntax.Extent
import Scriptlet.Proofs.Syntax.Order

/-! How the spans of a tree nest. A tree starts where its reading starts and ends no later than what
the reading stops at, whatever is missing in it. So a part that is read on the way lies within the
whole, and what is read behind it starts no earlier. -/

namespace Scriptlet

open Tokens (Ordered)

structure Span.Within (inner outer : Span) : Prop where
  start_le : outer.start.index ≤ inner.start.index
  stop_le : inner.stop.index ≤ outer.stop.index

theorem Span.within_through {s a b : Span} (hstart : a.start.index ≤ s.start.index)
    (hstop : s.stop.index ≤ b.stop.index) : s.Within (a.through b) := ⟨hstart, hstop⟩

namespace Node

def children : Node → List Node
  | unary _ operand _ => [operand]
  | binary left _ right _ => [left, right]
  | group inner _ => [inner]
  | declare _ value _ => [value]
  | branch condition body _ | loop condition body _ => condition :: body
  | literal _ | access _ | breakLoop _ | continueLoop _ | missing _ => []

/-- The children that cannot start at one token: the operands of an operator, which stands between
them, or the statements of a body, which take a token each. -/
def sequence : Node → List Node
  | binary left _ right _ => [left, right]
  | branch _ body _ | loop _ body _ => body
  | _ => []

theorem nodes_eq (n : Node) : n.nodes = n :: Program.nodes n.children := by
  cases n <;> simp [children]

theorem children_of_block? {word : Token} {make : Node → List Node → Span → Node}
    (h : word.block? = some make) (condition : Node) (body : List Node) (s : Span) :
    (make condition body s).children = condition :: body := by
  obtain ⟨-, rfl⟩ | ⟨-, rfl⟩ := Token.block?_eq_some h <;> rfl

structure Nests (n : Node) : Prop where
  within (m : Node) (hm : m ∈ n.children) : m.span.Within n.span
  children_le : n.children.Pairwise fun a b => a.span.start.index ≤ b.span.start.index
  sequence_lt : n.sequence.Pairwise fun a b => a.span.start.index < b.span.start.index

namespace Nests
variable {n condition left right : Node} {body : List Node}

theorem of_no_child (hchildren : n.children = []) (hsequence : n.sequence = []) : n.Nests := by
  refine ⟨?_, ?_, ?_⟩
  · rw [hchildren]
    exact List.forall_mem_nil _
  · rw [hchildren]
    exact .nil
  · rw [hsequence]
    exact .nil

theorem of_child {child : Node} (hchildren : n.children = [child]) (hsequence : n.sequence = [])
    (hwithin : child.span.Within n.span) : n.Nests := by
  refine ⟨?_, ?_, ?_⟩
  · rw [hchildren]
    exact List.forall_mem_singleton.2 hwithin
  · rw [hchildren]
    exact List.pairwise_singleton _ _
  · rw [hsequence]
    exact .nil

theorem of_operands (op : BinaryOp) (hstart : left.span.start.index < right.span.start.index)
    (hstop : left.span.stop.index ≤ right.span.stop.index) :
    (binary left op right (left.span.through right.span)).Nests := by
  have hle := Nat.le_of_lt hstart
  have hleft : left.span.Within (left.span.through right.span) :=
    Span.within_through (Nat.le_refl _) hstop
  have hright : right.span.Within (left.span.through right.span) :=
    Span.within_through hle (Nat.le_refl _)
  have hwithin : ∀ m ∈ [left, right], m.span.Within (left.span.through right.span) :=
    List.forall_mem_cons.2 ⟨hleft, List.forall_mem_singleton.2 hright⟩
  exact ⟨hwithin, List.pairwise_pair.2 hle, List.pairwise_pair.2 hstart⟩

theorem of_block {word : Token} {make : Node → List Node → Span → Node} {s : Span}
    (hword : word.block? = some make) (hcondition : condition.span.Within s)
    (hbody : ∀ n ∈ body, n.span.Within s)
    (hbehind : ∀ n ∈ body, condition.span.start.index ≤ n.span.start.index)
    (hstarts : body.Pairwise fun a b => a.span.start.index < b.span.start.index) :
    (make condition body s).Nests := by
  have hwithin : ∀ m ∈ condition :: body, m.span.Within s :=
    List.forall_mem_cons.2 ⟨hcondition, hbody⟩
  have hle := List.pairwise_cons.2 ⟨hbehind, hstarts.imp Nat.le_of_lt⟩
  obtain ⟨-, rfl⟩ | ⟨-, rfl⟩ := Token.block?_eq_some hword <;> exact ⟨hwithin, hle, hstarts⟩

end Nests
end Node

namespace Grammar
variable {stop : Token} {ts ts₁ rest : List Token}

theorem start_lt_lookahead {first : Token} (ho : Ordered (first :: ts ++ [stop]))
    (h : rest <:+ ts) : first.span.start.index < (lookahead stop rest).span.start.index := by
  have hfound : Meets stop ts rest (lookahead stop rest) := (Meets.first List.suffix_rfl).later h
  have hlt := ho.start_lt first List.mem_cons_self
  have hapart := (List.pairwise_cons.1 ho.apart).1 _ hfound.mem
  omega

theorem Lies.bounds {n : Node} (h : Lies stop ts rest n) (ho : Ordered (ts ++ [stop])) :
    n.span.start.index = (lookahead stop ts).span.start.index ∧
      (lookahead stop ts).span.stop.index ≤ n.span.stop.index ∧
      n.span.stop.index ≤ (lookahead stop rest).span.stop.index := by
  obtain ⟨last, hlast, hspan⟩ := h.extent
  obtain ⟨hfirst, hrest⟩ := hlast.leads ho
  rw [hspan]
  exact ⟨rfl, hfirst.stop_le, hrest.stop_le⟩

structure Row (stop : Token) (ts rest : List Token) (ns : List Node) : Prop where
  nests : ∀ m ∈ Program.nodes ns, m.Nests
  starts_lt : ns.Pairwise fun a b => a.span.start.index < b.span.start.index
  start_le : ∀ n ∈ ns, (lookahead stop ts).span.start.index ≤ n.span.start.index
  stop_le : ∀ n ∈ ns, n.span.stop.index ≤ (lookahead stop rest).span.stop.index

namespace Row

theorem nil : Row stop ts rest [] :=
  ⟨List.forall_mem_nil _, .nil, List.forall_mem_nil _, List.forall_mem_nil _⟩

/-- One more statement in front. What is read next starts behind its first token, whether it took
that token or not. -/
theorem cons {first : Token} {n : Node} {ns : List Node} (h : Row stop ts₁ rest ns)
    (ho : Ordered (first :: ts ++ [stop])) (hn : Lies stop (first :: ts) rest n)
    (hnests : ∀ m ∈ n.nodes, m.Nests) (hts₁ : ts₁ <:+ ts) :
    Row stop (first :: ts) rest (n :: ns) := by
  obtain ⟨hstart, -, hstop⟩ := hn.bounds ho
  have hnext := start_lt_lookahead ho hts₁
  have hlater (m : Node) (hm : m ∈ ns) : first.span.start.index < m.span.start.index :=
    Nat.lt_of_lt_of_le hnext (h.start_le m hm)
  refine ⟨?_, List.pairwise_cons.2 ⟨fun m hm => ?_, h.starts_lt⟩, ?_, ?_⟩
  · rw [Program.nodes_cons]
    exact List.forall_mem_append.2 ⟨hnests, h.nests⟩
  · rw [hstart]
    exact hlater m hm
  · exact List.forall_mem_cons.2 ⟨Nat.le_of_eq hstart.symm, fun m hm => Nat.le_of_lt (hlater m hm)⟩
  · exact List.forall_mem_cons.2 ⟨hstop, h.stop_le⟩

end Row

def Nested (stop : Token) (ts rest : List Token) : Finding → Prop
  | .expression n | .tier _ n | .statement n => ∀ m ∈ n.nodes, m.Nests
  | .chain _ left n => ∀ us, ts <:+ us → Ordered (us ++ [stop]) → Lies stop us ts left →
    (∀ m ∈ left.nodes, m.Nests) → ∀ m ∈ n.nodes, m.Nests
  | .statements _ ns => Row stop ts rest ns

theorem nests_leaf {n : Node} (hchildren : n.children = []) (hsequence : n.sequence = []) :
    ∀ m ∈ n.nodes, m.Nests := by
  rw [Node.nodes_eq, hchildren]
  exact List.forall_mem_singleton.2 (.of_no_child hchildren hsequence)

theorem nests_around {first : Token} {n child : Node} {last : Span}
    (hchildren : n.children = [child]) (hsequence : n.sequence = [])
    (hspan : n.span = first.span.through last) (ho : Ordered (first :: ts ++ [stop]))
    (hts₁ : ts₁ <:+ ts) (hlies : Lies stop ts₁ rest child)
    (hstop : child.span.stop.index ≤ last.stop.index) (h : ∀ m ∈ child.nodes, m.Nests) :
    ∀ m ∈ n.nodes, m.Nests := by
  have hstart := (hlies.bounds (ordered_suffix ho (hts₁.trans (List.suffix_cons first ts)))).1
  have hfirst := start_lt_lookahead ho hts₁
  have hwithin : child.span.Within n.span := by
    rw [hspan]
    exact Span.within_through (by omega) hstop
  rw [Node.nodes_eq, hchildren, Program.nodes_cons, Program.nodes_nil, List.append_nil,
    List.forall_mem_cons]
  exact ⟨.of_child hchildren hsequence hwithin, h⟩

theorem Reads.nested {f : Finding} {issues : List Diagnostic} (h : Reads stop f ts rest issues)
    (ho : Ordered (ts ++ [stop])) : Nested stop ts rest f := by
  induction h with
  | declare _ hname hmark hvalue ih =>
    have hts₂ := hmark.isSuffix.trans hname.isSuffix
    have ho₂ := ordered_suffix ho (hts₂.trans (List.suffix_cons _ _))
    exact nests_around rfl rfl rfl ho hts₂ hvalue.located (Nat.le_refl _) (ih ho₂)
  | logical _ _ ih => exact ih ho
  | negation _ h ih | signed _ h ih =>
    have ho₁ := ordered_suffix ho (List.suffix_cons _ _)
    exact nests_around rfl rfl rfl ho List.suffix_rfl h.located (Nat.le_refl _) (ih ho₁)
  | operands _ _ hleft _ ihleft ihchain =>
    have ho₁ := ordered_suffix ho hleft.isSuffix
    exact ihchain ho₁ _ hleft.isSuffix ho hleft.located (ihleft ho)
  | last => exact fun _ _ _ _ hleft => hleft
  | @join t token op left right n ts ts₁ _ _ _ _ hright _ ihright ihchain =>
    intro us hus hous hleft hnests
    have hts := (List.suffix_cons token ts).trans hus
    have ho₁ := ordered_suffix ho (List.suffix_cons token ts)
    have hlies : Lies stop ts ts₁ right := hright.located
    obtain ⟨hstart, -, hstop⟩ := hleft.bounds hous
    obtain ⟨hrightstart, hrightstop, -⟩ := hlies.bounds ho₁
    -- the left operand starts no later than the operator, and stops no later than it
    have hfirst := (lookahead_leads_lookahead hous hus).start_le
    have hnext := (lookahead_leads_lookahead ho (List.suffix_cons token ts)).stop_le
    have hbehind := start_lt_lookahead ho List.suffix_rfl
    simp only [lookahead_cons] at hfirst hnext hstop
    refine ihchain (ordered_suffix ho₁ hright.isSuffix) us (hright.isSuffix.trans hts) hous
      (hleft.join op hlies hts) ?_
    rw [Node.nodes_binary, List.forall_mem_cons, List.forall_mem_append]
    exact ⟨.of_operands op (by omega) (by omega), hnests, ihright ho₁⟩
  | @group opening close n ts ts₁ _ _ _ _ h hclose ih =>
    have ho₁ := ordered_suffix ho (List.suffix_cons opening ts)
    have hlies : Lies stop ts ts₁ n := h.located
    have hstop : n.span.stop.index ≤ close.span.stop.index := by
      rw [hclose.span_eq]
      exact (hlies.bounds ho₁).2.2
    exact nests_around rfl rfl rfl ho List.suffix_rfl hlies hstop (ih ho₁)
  | access | literal => exact nests_leaf rfl rfl
  | @block word opening closing brace last make condition body ts ts₁ ts₂ ts₃ ts₄ ts₅ rest _ _ _ _
      _ _ hword hopen hcondition hclose hbrace hbody hlast ihcondition ihbody =>
    have h₁ := hopen.isSuffix
    have h₄ := hbrace.isSuffix.trans hclose.isSuffix
    have ho₁ := ordered_suffix ho (h₁.trans (List.suffix_cons word ts))
    have ho₂ := ordered_suffix ho₁ hcondition.isSuffix
    have hrow : Row stop ts₄ ts₅ body := ihbody (ordered_suffix ho₂ h₄)
    have hlies : Lies stop ts₁ ts₂ condition := hcondition.located
    obtain ⟨hstart, -, hstop⟩ := hlies.bounds ho₁
    -- what the parts start at and stop at, from the word to the last token
    have hfirst := start_lt_lookahead ho h₁
    have hbehind := (lookahead_leads_lookahead ho₁ (h₄.trans hcondition.isSuffix)).start_le
    have hend := (lookahead_leads_lookahead ho₂ (hbody.isSuffix.trans h₄)).stop_le
    rw [Nested, Node.nodes_eq, Node.children_of_block? hword, Program.nodes_cons,
      List.forall_mem_cons, List.forall_mem_append]
    refine ⟨.of_block hword ?_ (fun n hn => ?_) (fun n hn => ?_) hrow.starts_lt, ihcondition ho₁,
      hrow.nests⟩
    · rw [hlast.span_eq]
      exact Span.within_through (by omega) (by omega)
    · have hn₄ := hrow.start_le n hn
      rw [hlast.span_eq]
      exact Span.within_through (by omega) (hrow.stop_le n hn)
    · have hn₄ := hrow.start_le n hn
      omega
  | missing | breakLoop | continueLoop => exact nests_leaf rfl rfl
  | closed _ _ _ _ _ ih | closedBlock _ _ _ _ _ ih | bareBlock _ _ _ _ _ ih => exact ih ho
  | finished | closing => exact .nil
  | @next _ n ns first ts ts₁ _ _ _ _ h hless hnext ih ihnext =>
    have hlies : Lies stop (first :: ts) ts₁ n := h.located
    have hsuffix : ts₁ <:+ ts := by
      refine (List.suffix_cons_iff.1 h.isSuffix).resolve_left ?_
      rintro rfl
      exact absurd hless (Nat.not_succ_le_self _)
    have ho₁ := ordered_suffix ho h.isSuffix
    exact .cons (ihnext ho₁) ho (hlies.leave hnext.isSuffix) (ih ho) hsuffix
  | @stalled _ n ns first ts _ _ _ _ h hnext ih ihnext =>
    have hlies : Lies stop (first :: ts) (first :: ts) n := h.located
    have hsuffix := List.suffix_cons first ts
    have ho₁ := ordered_suffix ho hsuffix
    exact .cons (ihnext ho₁) ho (hlies.leave (hnext.isSuffix.trans hsuffix)) (ih ho) List.suffix_rfl

end Grammar

theorem row_parseText (source text : String) :
    Grammar.Row (Tokens.stop (lex source text).tokens) (Tokens.proper (lex source text).tokens) []
      (parseText source text).program := by
  have hts := lex_tokens_ne_nil source text
  have hreads := reads_proper (lex source text).tokens
  have hrow := hreads.nested (ordered_proper_lex source text)
  rw [hreads.rest_eq_nil] at hrow
  rw [parseText, parse_eq hts]
  exact hrow

end Scriptlet
