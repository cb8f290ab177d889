import Mathlib.Data.List.TakeWhile
import Scriptlet.Proofs.Syntax.Clean
import Scriptlet.Proofs.Syntax.Derivation

/-! What a block without a semicolon does to what comes behind it. A statement there is read as it
would be alone, unless it starts with a sign: the sign is taken for an operator, whose left operand
is the block. -/

namespace Scriptlet

namespace Node

/-- A tree whose first operand is signed, as it is read behind a block. -/
def continuedBy (block : Node) : Node → Node
  | unary .plus operand _ => binary block .add operand (block.span.through operand.span)
  | unary .negate operand _ => binary block .subtract operand (block.span.through operand.span)
  | binary left op right _ =>
    let whole := block.continuedBy left
    binary whole op right (whole.span.through right.span)
  | n => n

def isAtom : Node → Bool
  | literal _ | access _ | group .. => true
  | _ => false

theorem isNegation_continuedBy (block n : Node) :
    (block.continuedBy n).isNegation = n.isNegation := by
  cases n with
  | unary op => cases op <;> rfl
  | _ => rfl

end Node

theorem UnaryOp.exists_continuedBy {sign : Token} {op : UnaryOp} (h : ofSign? sign = some op)
    (block operand : Node) (s : Span) :
    ∃ op', Tier.term.operator? sign = some op' ∧
      block.continuedBy (.unary op operand s) =
        .binary block op' operand (block.span.through operand.span) := by
  obtain ⟨hkind, rfl⟩ | ⟨hkind, rfl⟩ := ofSign?_eq_some h
  · exact ⟨.add, by simp [Tier.operator?, BinaryOp.ofToken?, hkind, BinaryOp.tier], rfl⟩
  · exact ⟨.subtract, by simp [Tier.operator?, BinaryOp.ofToken?, hkind, BinaryOp.tier], rfl⟩

namespace Spelled

theorem primary_of_isAtom_or_isBlock {p : Phrase} {ts : List Token} (h : Spelled p ts) :
    match p with
    | .expression n | .tier _ n =>
      n.isAtom = true ∨ n.isBlock = true → Spelled (.tier .primary n) ts
    | _ => True := by
  induction h with
  | logical _ ih | operand _ _ ih => exact ih
  | group hopen h hclose => exact fun _ => .group hopen h hclose
  | access hname => exact fun _ => .access hname
  | literal htoken => exact fun _ => .literal htoken
  | block hword hopen hcondition hclose hbrace hbody hlast =>
    exact fun _ => .block hword hopen hcondition hclose hbrace hbody hlast
  | declare | negation | join | signed => rintro (h | h) <;> cases h
  | _ => trivial

theorem of_sign {p : Phrase} {ts : List Token} (h : Spelled p ts) :
    match p with
    | .tier t n => t.height ≤ Tier.factor.height →
      ∀ sign xs, ts = sign :: xs → (UnaryOp.ofSign? sign).isSome →
        ∃ op operand s, UnaryOp.ofSign? sign = some op ∧ n = .unary op operand s ∧
          Spelled (.tier .factor operand) xs
    | _ => True := by
  induction h with
  | negation => exact fun hle => absurd hle (by decide)
  | operand ht _ ih =>
    exact fun hle => ih (Nat.le_trans (Nat.le_of_lt (Tier.height_operand_lt ht)) hle)
  | @join t token op left right xs ys hop hadmits hleft _ ih =>
    intro hle sign zs hts hsign
    obtain ⟨x, xs, rfl, -⟩ := hleft.starts
    obtain ⟨rfl, -⟩ := List.cons.inj hts
    obtain ⟨op', operand, s, hop', rfl, -⟩ := ih hle x xs rfl hsign
    -- the left operand would end in its sign, which no operator here admits
    have hend := (Node.signed_of_ofSign? hop' operand s).2
    cases t with
    | factor | power => exact nomatch hend.symm.trans hadmits
    | primary => exact nomatch hop.symm.trans (Tier.operator?_primary token)
    | term | comparison | logical => exact absurd hle (by decide)
  | signed hsign h =>
    intro _ sign xs hts _
    obtain ⟨rfl, rfl⟩ := List.cons.inj hts
    exact ⟨_, _, _, hsign, rfl, h⟩
  | group hkind | access hkind | literal hkind =>
    intro _ sign xs hts hsign
    obtain ⟨rfl, -⟩ := List.cons.inj hts
    simp [UnaryOp.isSome_ofSign?_iff, hkind] at hsign
  | block hword =>
    intro _ sign xs hts hsign
    obtain ⟨rfl, -⟩ := List.cons.inj hts
    have hword := (Token.block?_eq_some hword).imp And.left And.left
    have hkind := hword.elim Token.kind_of_keyword? Token.kind_of_keyword?
    simp [UnaryOp.isSome_ofSign?_iff, hkind] at hsign
  | _ => trivial

/-- A block in front of a sign becomes the left operand of what the sign starts. -/
theorem continued {block : Node} {bs : List Token} (hblock : Spelled (.tier .primary block) bs)
    {p : Phrase} {ts : List Token} (h : Spelled p ts) :
    ∀ sign xs, ts = sign :: xs → (UnaryOp.ofSign? sign).isSome →
      match p with
      | .tier t n =>
        Tier.factor.height < t.height → Spelled (.tier t (block.continuedBy n)) (bs ++ ts)
      | .expression n => Spelled (.expression (block.continuedBy n)) (bs ++ ts)
      | .statement n => Spelled (.statement (block.continuedBy n)) (bs ++ ts)
      | .statements ns =>
        ∃ m ms, ns = m :: ms ∧ Spelled (.statements (block.continuedBy m :: ms)) (bs ++ ts) := by
  induction h with
  | declare hword | negation hword | breakLoop hword | continueLoop hword =>
    intro sign xs hts hsign
    obtain ⟨rfl, -⟩ := List.cons.inj hts
    simp [UnaryOp.isSome_ofSign?_iff, Token.kind_of_keyword? hword] at hsign
  | logical _ ih => exact fun sign xs hts hsign => .logical (ih sign xs hts hsign (by decide))
  | @operand t n ts ht h ih =>
    intro sign xs hts hsign hlt
    -- the term takes the sign as its operator, and the operand of the sign as its own
    by_cases hterm : t = .term
    · subst hterm hts
      obtain ⟨op, operand, s, hop, rfl, hoperand⟩ := h.of_sign (by decide) sign xs rfl hsign
      obtain ⟨op', hop', heq⟩ := UnaryOp.exists_continuedBy hop block operand s
      rw [heq]
      exact .join hop' trivial (hblock.of_primary .term) hoperand
    · refine .operand ht (ih sign xs hts hsign ?_)
      cases t <;> first | decide | exact absurd rfl hterm | exact absurd hlt (by decide)
  | @join t token op left right xs ys hop hadmits hleft hright ih =>
    intro sign zs hts hsign hlt
    obtain ⟨x, xs, rfl, -⟩ := hleft.starts
    obtain ⟨rfl, -⟩ := List.cons.inj hts
    have hadmits : t.admits (block.continuedBy left) := by
      cases t with
      | comparison => exact (Node.isNegation_continuedBy block left).trans hadmits
      | factor | power => exact absurd hlt (by decide)
      | logical | term | primary => trivial
    have hjoin := Spelled.join hop hadmits (ih x xs rfl hsign hlt) hright
    simpa [Node.continuedBy] using hjoin
  | closed h hmark ih =>
    intro sign zs hts hsign
    obtain ⟨x, xs, rfl, -⟩ := h.starts
    obtain ⟨rfl, -⟩ := List.cons.inj hts
    simpa using Spelled.closed (ih x xs rfl hsign) hmark
  | finished =>
    intro sign xs hts
    cases hts
  | @next m ms xs ys h hnext ih =>
    intro sign zs hts hsign
    obtain ⟨x, xs, rfl, -⟩ := h.starts
    obtain ⟨rfl, -⟩ := List.cons.inj hts
    refine ⟨m, ms, rfl, ?_⟩
    simpa using Spelled.next (ih x xs rfl hsign) hnext
  | bare hn h =>
    intro sign zs hts hsign
    obtain ⟨x, xs, rfl, -⟩ := h.starts
    obtain ⟨rfl, -⟩ := List.cons.inj hts
    have hword := (h.derived.2 hn).keyword?_head
    have hkind := hword.elim Token.kind_of_keyword? Token.kind_of_keyword?
    simp [UnaryOp.ofSign?, hkind] at hsign
  | group | access | literal | signed | block => exact fun _ _ _ _ hlt => absurd hlt (by decide)

theorem primary_of_single {block : Node} {bs : List Token} (h : Spelled (.statements [block]) bs)
    (hblock : block.isBlock = true) {brace : Token} (hlast : bs.getLast? = some brace)
    (hbrace : brace.kind = .rightBrace) : Spelled (.tier .primary block) bs := by
  cases h with
  | @next _ _ xs ys h hnext =>
    obtain rfl : ys = [] := by
      cases hnext
      rfl
    cases h with
    | breakLoop | continueLoop => cases hblock
    | closed _ hmark =>
      obtain rfl := by simpa using hlast
      exact nomatch hmark.symm.trans hbrace
  | @bare _ _ xs ys _ h _ hnext =>
    obtain rfl : ys = [] := by
      cases hnext
      rfl
    rw [List.append_nil]
    exact h.primary_of_isAtom_or_isBlock (.inr hblock)

theorem alone {block : Node} {bs : List Token} (h : Spelled (.tier .primary block) bs)
    (hblock : block.isBlock = true) : Spelled (.statements [block]) bs := by
  have hbare : Spelled (.statements [block]) (bs ++ []) :=
    .bare hblock (.logical (h.of_primary .logical)) (fun _ hy => nomatch hy) .finished
  rwa [List.append_nil] at hbare

theorem ended {n : Node} {ts : List Token} {mark : Token} (h : Spelled (.expression n) ts)
    (hmark : mark.kind = .semicolon) : Spelled (.statements [n]) (ts ++ [mark]) := by
  have hnext := Spelled.next (.closed h hmark) .finished
  rwa [List.append_nil] at hnext

theorem emptyBlock {word opening name closing brace last : Token} {make}
    (hword : word.block? = some make) (hopen : opening.kind = .leftParen)
    (hname : name.kind = .identifier) (hclose : closing.kind = .rightParen)
    (hbrace : brace.kind = .leftBrace) (hlast : last.kind = .rightBrace) :
    Spelled (.tier .primary (make (.access name) [] (word.span.through last.span)))
      [word, opening, name, closing, brace, last] := by
  have hcondition : Spelled (.expression (.access name)) [name] :=
    .logical ((Spelled.access hname).of_primary .logical)
  exact .block hword hopen hcondition hclose hbrace .finished hlast

theorem signedLiteral {sign number mark : Token} {op : UnaryOp}
    (hsign : UnaryOp.ofSign? sign = some op) (hnumber : number.kind = .number)
    (hmark : mark.kind = .semicolon) :
    Spelled (.statements [.unary op (.literal number) (sign.span.through number.span)])
      [sign, number, mark] := by
  have hoperand : Spelled (.tier .factor (.literal number)) [number] :=
    (Spelled.literal hnumber).of_primary .factor
  have hsigned := (Spelled.signed hsign hoperand).of_primary .logical
  exact .ended (.logical hsigned) hmark

end Spelled

/-- Tokens that are read without an issue are so behind a block that ends with its brace as well. No
statement changes, unless the first one starts with a sign: that one is then continued from the
block. -/
theorem parse_behind_block {bs rs : List Token} {ds : List Diagnostic} {block : Node}
    {brace : Token} (hbs : ∀ t ∈ bs, t.kind ≠ .endOfInput) (hread : parse bs ds = ⟨[block], ds⟩)
    (hblock : block.isBlock = true) (hlast : bs.getLast? = some brace)
    (hbrace : brace.kind = .rightBrace) (hrs : rs ≠ []) (hclean : (parse rs ds).diagnostics = ds) :
    ((∀ t ∈ rs.head?, t.kind ≠ .plus ∧ t.kind ≠ .minus) →
      parse (bs ++ rs) ds = ⟨block :: (parse rs ds).program, ds⟩) ∧
    ((∃ t ∈ rs.head?, t.kind = .plus ∨ t.kind = .minus) →
      ∃ m ms, (parse rs ds).program = m :: ms ∧
        parse (bs ++ rs) ds = ⟨block.continuedBy m :: ms, ds⟩) := by
  have hbs' : bs ≠ [] := by
    rintro rfl
    cases hlast
  have hne : bs ++ rs ≠ [] := by simp [hrs]
  have hproper : ∀ t ∈ bs, Tokens.isProper t := by simpa [Tokens.isProper] using hbs
  have hprimary : Spelled (.tier .primary block) bs := by
    have h := (parse_eq_iff_spelled hbs' ds).1 hread
    rw [Tokens.proper, List.takeWhile_eq_self_iff.2 hproper] at h
    exact h.primary_of_single hblock hlast hbrace
  have hspelled := (parse_diagnostics_eq_iff hrs).1 hclean
  simp only [parse_eq_iff_spelled hne, Tokens.proper, List.takeWhile_append_of_pos hproper]
  rw [Tokens.proper] at hspelled
  obtain ⟨first, rest, rfl⟩ := List.exists_cons_of_ne_nil hrs
  simp only [List.head?_cons, Option.mem_def, Option.some.injEq, forall_eq', exists_eq_left']
  constructor
  · rintro ⟨hplus, hminus⟩
    refine .bare hblock (.logical (hprimary.of_primary .logical)) (fun y hy => ?_) hspelled
    rw [List.takeWhile_cons] at hy
    split at hy
    · obtain rfl : first = y := by simpa using hy
      simp [← Option.not_isSome_iff_eq_none, UnaryOp.isSome_ofSign?_iff, hplus, hminus]
    · cases hy
  · intro hsign
    have hfirst : Tokens.isProper first = true := by
      rcases hsign with h | h <;> simp [Tokens.isProper, h]
    rw [List.takeWhile_cons_of_pos hfirst] at hspelled ⊢
    exact hprimary.continued hspelled first _ rfl (UnaryOp.isSome_ofSign?_iff.2 hsign)

theorem parse_behind_empty_branch :
    let mark (kind : TokenKind) (text : String) : Token := ⟨kind, text, none, .nowhere⟩
    let x := mark .identifier "x"
    let one := mark .number "1"
    let bs : List Token :=
      [⟨.keyword, "if", some (.keyword .ifWord), .nowhere⟩, mark .leftParen "(", x,
        mark .rightParen ")", mark .leftBrace "\x7b", mark .rightBrace "\x7d"]
    let block : Node := .branch (.access x) [] .nowhere
    parse (bs ++ [x, mark .semicolon ";"]) [] = ⟨[block, .access x], []⟩ ∧
      parse (bs ++ [mark .minus "-", one, mark .semicolon ";"]) [] =
        ⟨[.binary block .subtract (.literal one) .nowhere], []⟩ := by
  intro mark x one bs block
  have hkinds : ∀ t ∈ bs, t.kind ≠ .endOfInput := by decide
  have hblock :
      Spelled (.tier .primary (.branch (.access x) [] (bs[0].span.through bs[5].span))) bs :=
    .emptyBlock rfl rfl rfl rfl rfl rfl
  have hread : parse bs [] = ⟨[block], []⟩ :=
    (parse_eq_iff_spelled (List.cons_ne_nil _ _) []).2 (hblock.alone rfl)
  constructor
  · have hx : Spelled (.expression (.access x)) [x] := .logical ((Spelled.access rfl).of_primary _)
    have hname : parse [x, mark .semicolon ";"] [] = ⟨[.access x], []⟩ :=
      (parse_eq_iff_spelled (List.cons_ne_nil _ _) []).2 (hx.ended rfl)
    have hbehind := (parse_behind_block hkinds hread rfl rfl rfl (List.cons_ne_nil x _)
      (congrArg Parsed.diagnostics hname)).1 (by decide)
    rwa [hname] at hbehind
  · let sign := mark .minus "-"
    have hsigned : parse [sign, one, mark .semicolon ";"] [] =
        ⟨[.unary .negate (.literal one) (sign.span.through one.span)], []⟩ :=
      (parse_eq_iff_spelled (List.cons_ne_nil _ _) []).2 (.signedLiteral rfl rfl rfl)
    obtain ⟨m, ms, hprogram, hbehind⟩ :=
      (parse_behind_block hkinds hread rfl rfl rfl (List.cons_ne_nil sign _)
        (congrArg Parsed.diagnostics hsigned)).2 (by decide)
    rw [hsigned] at hprogram
    obtain ⟨rfl, rfl⟩ := List.cons.inj hprogram
    exact hbehind

/-- Behind a block not every statement is left as it is: `if (x) { }` and `-1;` make one. -/
theorem parse_behind_block_ne_cons :
    ¬ ∀ (bs rs : List Token) (block : Node) (brace : Token), (∀ t ∈ bs, t.kind ≠ .endOfInput) →
      parse bs [] = ⟨[block], []⟩ → block.isBlock = true → bs.getLast? = some brace →
        brace.kind = .rightBrace → rs ≠ [] → (parse rs []).diagnostics = [] →
          parse (bs ++ rs) [] = ⟨block :: (parse rs []).program, []⟩ := by
  intro h
  let mark (kind : TokenKind) (text : String) : Token := ⟨kind, text, none, .nowhere⟩
  let x := mark .identifier "x"
  let sign := mark .minus "-"
  let one := mark .number "1"
  let bs : List Token :=
    [⟨.keyword, "if", some (.keyword .ifWord), .nowhere⟩, mark .leftParen "(", x,
      mark .rightParen ")", mark .leftBrace "\x7b", mark .rightBrace "\x7d"]
  let rs : List Token := [sign, one, mark .semicolon ";"]
  have hblock :
      Spelled (.tier .primary (.branch (.access x) [] (bs[0].span.through bs[5].span))) bs :=
    .emptyBlock rfl rfl rfl rfl rfl rfl
  have hsigned :
      Spelled (.statements [.unary .negate (.literal one) (sign.span.through one.span)]) rs :=
    .signedLiteral rfl rfl rfl
  have hread : parse bs [] = ⟨[.branch (.access x) [] .nowhere], []⟩ :=
    (parse_eq_iff_spelled (List.cons_ne_nil _ _) []).2 (hblock.alone rfl)
  have hrest : parse rs [] = ⟨[.unary .negate (.literal one) .nowhere], []⟩ :=
    (parse_eq_iff_spelled (List.cons_ne_nil _ _) []).2 hsigned
  have hapart := h bs rs _ bs[5] (by decide) hread rfl rfl rfl (List.cons_ne_nil _ _)
    (congrArg Parsed.diagnostics hrest)
  obtain ⟨m, ms, hms, hcontinued⟩ := hblock.continued hsigned sign _ rfl rfl
  have htogether : parse (bs ++ rs) [] = ⟨_, []⟩ :=
    (parse_eq_iff_spelled (List.cons_ne_nil _ _) []).2 hcontinued
  obtain ⟨rfl, rfl⟩ := List.cons.inj hms
  rw [htogether, hrest] at hapart
  -- one statement cannot be two
  cases hapart

end Scriptlet
