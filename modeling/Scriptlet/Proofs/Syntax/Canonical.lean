import Scriptlet.Proofs.Syntax.Clean
import Scriptlet.Proofs.Syntax.Writing

/-! Canonical trees are those that are read back from their writing. The levels follow the
tiers, apart from a negation, which is an operand of logical operators only. -/

namespace Scriptlet

inductive Level
  | statement | expression | negation
  | tier (t : Tier)

/-- The level at which the operands of the next tier stand. A comparison may be negated there. -/
def Tier.level : Tier → Level
  | comparison => .negation
  | t => .tier t

inductive Canonical : Level → Node → Prop
  | breakLoop (s : Span) : Canonical .statement (.breakLoop s)
  | continueLoop (s : Span) : Canonical .statement (.continueLoop s)
  | expression {n : Node} (h : Canonical .expression n) : Canonical .statement n
  | declare {name : Token} {value : Node} (s : Span) (hname : name.kind = .identifier)
      (hvalue : Canonical .expression value) : Canonical .expression (.declare name value s)
  | logical {n : Node} (h : Canonical (.tier .logical) n) : Canonical .expression n
  | not {n : Node} (s : Span) (h : Canonical .negation n) : Canonical .negation (.unary .not n s)
  | comparison {n : Node} (h : Canonical (.tier .comparison) n) : Canonical .negation n
  | operand {t : Tier} {n : Node} (ht : t ≠ .primary) (h : Canonical t.operand.level n) :
      Canonical (.tier t) n
  | binary {t : Tier} {left right : Node} {op : BinaryOp} (s : Span) (hop : op.tier = t)
      (hleft : Canonical (.tier t) left) (hright : Canonical t.operand.level right)
      (hsign : op ∈ [BinaryOp.power, .multiply, .divide] → left.endsInSign = false) :
      Canonical (.tier t) (.binary left op right s)
  | literal {token : Token} (htoken : token.kind = .number) :
      Canonical (.tier .primary) (.literal token)
  | access {name : Token} (hname : name.kind = .identifier) :
      Canonical (.tier .primary) (.access name)
  | group {n : Node} (s : Span) (h : Canonical .expression n) :
      Canonical (.tier .primary) (.group n s)
  | signed {op : UnaryOp} {n : Node} (s : Span) (hop : op ≠ .not)
      (h : Canonical (.tier .factor) n) : Canonical (.tier .primary) (.unary op n s)
  | branch {condition : Node} {body : List Node} (s : Span)
      (hcondition : Canonical .expression condition) (hbody : ∀ n ∈ body, Canonical .statement n) :
      Canonical (.tier .primary) (.branch condition body s)
  | loop {condition : Node} {body : List Node} (s : Span)
      (hcondition : Canonical .expression condition) (hbody : ∀ n ∈ body, Canonical .statement n) :
      Canonical (.tier .primary) (.loop condition body s)

def Program.Canonical (p : Program) : Prop := ∀ n ∈ p, Scriptlet.Canonical .statement n

namespace Canonical
variable {t : Tier} {n : Node}

theorem level (h : Canonical (.tier t) n) : Canonical t.level n := by
  cases t with
  | comparison => exact .comparison h
  | _ => exact h

theorem of_level (h : Canonical t.level n) (hn : t = .comparison → n.isNegation = false) :
    Canonical (.tier t) n := by
  cases t with
  | comparison =>
    cases h with
    | not => exact nomatch hn rfl
    | comparison h => exact h
  | _ => exact h

theorem isNegation_eq_false {l : Level} (h : Canonical l n) :
    match l with
    | .tier t => t ≠ .logical → n.isNegation = false
    | _ => True := by
  induction h with
  | @operand t _ ht _ ih =>
    intro hlogical
    cases t with
    | logical => exact absurd rfl hlogical
    | primary => exact absurd rfl ht
    | _ => exact ih nofun
  | @signed op _ _ hop =>
    intro _
    cases op with
    | not => exact absurd rfl hop
    | _ => rfl
  | binary | literal | access | group | branch | loop => exact fun _ => rfl
  | _ => trivial

end Canonical

def Phrase.Written : Phrase → List Token → Prop
  | expression n, ts => Canonical .expression n ∧ Fits n.slots ts
  | tier t n, ts => Canonical t.level n ∧ Fits n.slots ts
  | statement n, ts => Canonical .statement n ∧ Fits (n.slots ++ [⟨.mark ";", n.isBlock⟩]) ts
  | statements ns, ts => Program.Canonical ns ∧ Fits (slotsAll ns) ts

namespace Spelled

theorem written {p : Phrase} {ts : List Token} (h : Spelled p ts) : p.Written ts := by
  induction h with
  | declare hword hname hmark _ ih =>
    obtain ⟨hvalue, hfits⟩ := ih
    refine ⟨.declare _ hname hvalue, ?_⟩
    exact .keep (Token.form_of_keyword? hword) (.keep rfl (.keep (Token.form_of_kind hmark) hfits))
  | logical _ ih => exact ⟨.logical ih.1, ih.2⟩
  | negation hword _ ih =>
    obtain ⟨hn, hfits⟩ := ih
    exact ⟨.not _ hn, .keep (Token.form_of_keyword? hword) hfits⟩
  | operand ht _ ih => exact ⟨(Canonical.operand ht ih.1).level, ih.2⟩
  | @join t token op left right xs ys hop hadmits _ _ ihleft ihright =>
    obtain ⟨hleft, hfitsleft⟩ := ihleft
    obtain ⟨hright, hfitsright⟩ := ihright
    obtain ⟨htoken, rfl⟩ := Tier.operator?_eq_some_iff.1 hop
    have hcanonical : Canonical (.tier op.tier) left := hleft.of_level fun ht => by
      rw [ht] at hadmits
      exact hadmits
    have hsign (hmem : op ∈ [BinaryOp.power, .multiply, .divide]) : left.endsInSign = false := by
      simp only [List.mem_cons, List.not_mem_nil, or_false] at hmem
      rcases hmem with rfl | rfl | rfl <;> exact hadmits
    refine ⟨(Canonical.binary _ rfl hcanonical hright hsign).level, ?_⟩
    exact hfitsleft.append (.keep (BinaryOp.form_of_ofToken? htoken) hfitsright)
  | group hopen _ hclose ih =>
    obtain ⟨hn, hfits⟩ := ih
    refine ⟨.group _ hn, .keep (Token.form_of_kind hopen) ?_⟩
    exact hfits.append (.single (Token.form_of_kind hclose))
  | access hname => exact ⟨.access hname, .single rfl⟩
  | literal htoken => exact ⟨.literal htoken, .single rfl⟩
  | signed hsign _ ih =>
    obtain ⟨hn, hfits⟩ := ih
    refine ⟨.signed _ ?_ hn, .keep (UnaryOp.form_of_ofSign? hsign) hfits⟩
    rintro rfl
    obtain ⟨-, h⟩ | ⟨-, h⟩ := UnaryOp.ofSign?_eq_some hsign <;> cases h
  | @block word opening closing brace last make condition body xs ys hword hopen _ hclose hbrace _
      hlast ihcondition ihbody =>
    obtain ⟨hcondition, hfits⟩ := ihcondition
    obtain ⟨hbody, hfitsbody⟩ := ihbody
    have hinner : Fits (.mark "(" :: (condition.slots ++ .mark ")" :: .mark "\x7b" ::
        (slotsAll body ++ [.mark "\x7d"])))
        (opening :: (xs ++ closing :: brace :: (ys ++ [last]))) := by
      refine .keep (Token.form_of_kind hopen) (hfits.append ?_)
      refine .keep (Token.form_of_kind hclose) (.keep (Token.form_of_kind hbrace) ?_)
      exact hfitsbody.append (.single (Token.form_of_kind hlast))
    obtain ⟨hk, rfl⟩ | ⟨hk, rfl⟩ := Token.block?_eq_some hword
    · exact ⟨.branch _ hcondition hbody, .keep (Token.form_of_keyword? hk) hinner⟩
    · exact ⟨.loop _ hcondition hbody, .keep (Token.form_of_keyword? hk) hinner⟩
  | breakLoop hword hmark =>
    have hform := Token.form_of_kind hmark
    exact ⟨.breakLoop _, .keep (Token.form_of_keyword? hword) (.single hform)⟩
  | continueLoop hword hmark =>
    have hform := Token.form_of_kind hmark
    exact ⟨.continueLoop _, .keep (Token.form_of_keyword? hword) (.single hform)⟩
  | closed _ hmark ih =>
    obtain ⟨hn, hfits⟩ := ih
    have hform := Token.form_of_kind hmark
    exact ⟨.expression hn, hfits.append (.single hform)⟩
  | finished => exact ⟨nofun, .nil⟩
  | next _ _ ih ihnext =>
    obtain ⟨hn, hfits⟩ := ih
    obtain ⟨hns, hrest⟩ := ihnext
    refine ⟨List.forall_mem_cons.2 ⟨hn, hns⟩, ?_⟩
    have happend := hfits.append hrest
    rwa [List.append_assoc] at happend
  | bare hn _ _ _ ih ihnext =>
    obtain ⟨hcanonical, hfits⟩ := ih
    obtain ⟨hns, hrest⟩ := ihnext
    exact ⟨List.forall_mem_cons.2 ⟨.expression hcanonical, hns⟩, hfits.append (.leave hn hrest)⟩

end Spelled
end Scriptlet
