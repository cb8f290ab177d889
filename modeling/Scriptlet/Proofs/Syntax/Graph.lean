import Scriptlet.Proofs.Syntax.Reads

/-! What the relation says the reading functions do. Each rule of the relation is a step of one of
the functions, so by induction a function gives what any reading by the relation ends with. -/

namespace Scriptlet
namespace Grammar
variable {stop : Token}

def Agrees (stop : Token) : Finding → List Token → List Token → List Diagnostic → Prop
  | .expression n, ts, rest, issues => (expression stop ts).Gives ts n rest issues
  | .tier t n, ts, rest, issues => (tier stop t ts).Gives ts n rest issues
  | .chain t left n, ts, rest, issues => (chain stop t left ts).Gives ts n rest issues
  | .statement n, ts, rest, issues => (statement stop ts).Gives ts n rest issues
  | .statements inBlock ns, ts, rest, issues => (statements stop inBlock ts).Gives ts ns rest issues

theorem Takes.gives {e : Expectation} {ts rest : List Token} {token : Token}
    {issues : List Diagnostic} (h : Takes stop e ts token rest issues) :
    (demand stop e ts).Gives ts token rest issues := by
  cases h with
  | met h =>
    rw [demand, lookahead_cons, if_pos h]
    exact ⟨rfl, .one token rest, rfl⟩
  | unmet h =>
    rw [demand, if_neg h]
    exact ⟨rfl, .zero ts, rfl⟩

theorem Takes.isSuffix {e : Expectation} {ts rest : List Token} {token : Token}
    {issues : List Diagnostic} (h : Takes stop e ts token rest issues) : rest <:+ ts :=
  h.gives.leaves.isSuffix

theorem tier_primary (ts : List Token) : tier stop .primary ts = primary stop ts := by
  cases ts with
  | nil => rw [tier, dif_pos rfl]
  | cons first ts => rw [tier, dif_pos rfl]

theorem primary_other {ts : List Token} (h : ¬ (lookahead stop ts).startsPrimary) :
    primary stop ts = missingExpression stop ts := by
  cases ts with
  | nil => rw [primary]
  | cons first rest =>
    simp only [lookahead_cons, Token.startsPrimary, UnaryOp.ofSign?, Token.block?, not_or] at h
    rw [primary]
    split <;> simp_all
    split <;> simp_all

theorem primary_signed {sign : Token} {op : UnaryOp} (h : UnaryOp.ofSign? sign = some op)
    (ts : List Token) : primary stop (sign :: ts) = signed stop op sign ts := by
  unfold UnaryOp.ofSign? at h
  rw [primary]
  split at h <;> simp_all

theorem primary_block {word : Token} {make} (h : word.block? = some make)
    (ts : List Token) : primary stop (word :: ts) = block stop make word ts := by
  rw [primary]
  obtain ⟨hword, rfl⟩ | ⟨hword, rfl⟩ := Token.block?_eq_some h <;>
    simp only [Token.kind_of_keyword? hword, hword]

theorem statement_expression {ts : List Token}
    (hbreak : (lookahead stop ts).keyword? ≠ some .breakWord)
    (hcontinue : (lookahead stop ts).keyword? ≠ some .continueWord) :
    statement stop ts =
      let whole := expression stop ts
      let mark := terminator stop whole.value (ts.drop whole.used)
      ⟨whole.value, whole.used + mark.used, whole.issues ++ mark.issues⟩ := by
  rw [statement]
  split <;> first | contradiction | rfl

theorem leaves_missingExpression (hstop : stop.kind = .endOfInput) (ts : List Token) :
    Leaves ts (missingExpression stop ts).used (ts.drop (missingExpression stop ts).used) := by
  refine ⟨?_, rfl⟩
  cases ts with
  | nil => simp [missingExpression, hstop]
  | cons first ts =>
    unfold missingExpression
    dsimp only
    split
    · exact Nat.zero_le _
    · exact Nat.succ_le_succ (Nat.zero_le _)

namespace Agrees
variable {n left right condition : Node} {ns body : List Node} {t : Tier} {op : BinaryOp}
  {word name mark token : Token}
  {ts ts₁ ts₂ ts₃ ts₄ ts₅ rest : List Token} {i i₁ i₂ i₃ i₄ i₅ i₆ : List Diagnostic}

theorem declare (hword : word.keyword? = some .declare)
    (hname : Takes stop .declaredName ts name ts₁ i₁)
    (hmark : Takes stop .declaredEqual ts₁ mark ts₂ i₂)
    (hvalue : Agrees stop (.expression n) ts₂ rest i₃) :
    Agrees stop (.expression (.declare name n (word.span.through n.span))) (word :: ts) rest
      (i₁ ++ i₂ ++ i₃) := by
  obtain ⟨rfl, hnameLeaves, rfl⟩ := hname.gives
  obtain ⟨rfl, hmarkLeaves, rfl⟩ := hmark.gives
  obtain ⟨rfl, hvalue, rfl⟩ := hvalue
  have hstart := hnameLeaves.add hmarkLeaves
  rw [Agrees, expression, if_pos hword]
  simp only [hnameLeaves.drop_eq, hstart.drop_eq]
  exact ⟨rfl, (hstart.cons word).add hvalue, rfl⟩

theorem logical (hword : (lookahead stop ts).keyword? ≠ some .declare)
    (h : Agrees stop (.tier .logical n) ts rest i) : Agrees stop (.expression n) ts rest i := by
  cases ts with
  | nil => rwa [Agrees, expression]
  | cons first ts =>
    rw [lookahead_cons] at hword
    rwa [Agrees, expression, if_neg hword]

theorem negation (hword : word.keyword? = some .notWord)
    (h : Agrees stop (.tier .comparison n) ts rest i) :
    Agrees stop (.tier .comparison (.unary .not n (word.span.through n.span))) (word :: ts) rest
      i := by
  obtain ⟨rfl, h, rfl⟩ := h
  rw [Agrees, tier, dif_neg (by decide), if_pos ⟨rfl, hword⟩]
  exact ⟨rfl, h.cons word, rfl⟩

theorem operands (ht : t ≠ .primary)
    (hword : ¬ (t = .comparison ∧ (lookahead stop ts).keyword? = some .notWord))
    (hleft : Agrees stop (.tier t.operand left) ts ts₁ i₁)
    (hchain : Agrees stop (.chain t left n) ts₁ rest i₂) :
    Agrees stop (.tier t n) ts rest (i₁ ++ i₂) := by
  obtain ⟨rfl, hleft, rfl⟩ := hleft
  obtain ⟨rfl, hchain, rfl⟩ := hchain
  have hwhole := hleft.add hchain
  cases ts with
  | nil =>
    -- no operator is left to look for, and the chain is its first operand
    obtain rfl : [] = ts₁ := List.drop_nil.symm.trans hleft.drop_eq
    rw [Agrees, tier, dif_neg ht]
    simp only [chain] at hwhole ⊢
    exact ⟨rfl, hwhole, (List.append_nil _).symm⟩
  | cons first ts =>
    rw [lookahead_cons] at hword
    rw [Agrees, tier, dif_neg ht, if_neg hword]
    simp only [hleft.drop_eq]
    exact ⟨rfl, hwhole, rfl⟩

theorem last (hop : t.operator? (lookahead stop ts) = none) :
    Agrees stop (.chain t n n) ts ts [] := by
  rw [Agrees]
  cases ts with
  | nil =>
    rw [chain]
    exact ⟨rfl, .zero [], rfl⟩
  | cons first ts =>
    rw [lookahead_cons] at hop
    rw [chain]
    simp only [hop]
    exact ⟨rfl, .zero _, rfl⟩

theorem join (hop : t.operator? token = some op)
    (hright : Agrees stop (.tier t.operand right) ts ts₁ i₁)
    (hchain : Agrees stop
      (.chain t (.binary left op right (left.span.through right.span)) n) ts₁ rest i₂) :
    Agrees stop (.chain t left n) (token :: ts) rest (i₁ ++ i₂) := by
  obtain ⟨rfl, hright, rfl⟩ := hright
  obtain ⟨rfl, hchain, rfl⟩ := hchain
  rw [Agrees, chain]
  simp only [hop, hright.drop_eq]
  exact ⟨rfl, (hright.cons token).add hchain, rfl⟩

theorem group {opening closing : Token} (hopen : opening.kind = .leftParen)
    (h : Agrees stop (.expression n) ts ts₁ i₁)
    (hclose : Takes stop .closeGroup ts₁ closing rest i₂) :
    Agrees stop (.tier .primary (.group n (opening.span.through closing.span))) (opening :: ts) rest
      (i₁ ++ i₂) := by
  obtain ⟨rfl, h, rfl⟩ := h
  obtain ⟨rfl, hcloseLeaves, rfl⟩ := hclose.gives
  rw [Agrees, tier_primary, primary]
  simp only [hopen, h.drop_eq]
  exact ⟨rfl, (h.cons opening).add hcloseLeaves, rfl⟩

theorem access (hname : name.kind = .identifier) :
    Agrees stop (.tier .primary (.access name)) (name :: ts) ts [] := by
  rw [Agrees, tier_primary, primary]
  simp only [hname]
  exact ⟨rfl, .one name ts, rfl⟩

theorem literal (htoken : token.kind = .number) :
    Agrees stop (.tier .primary (.literal token)) (token :: ts) ts [] := by
  rw [Agrees, tier_primary, primary]
  simp only [htoken]
  exact ⟨rfl, .one token ts, rfl⟩

theorem signed {sign : Token} {op : UnaryOp} (hsign : UnaryOp.ofSign? sign = some op)
    (h : Agrees stop (.tier .factor n) ts rest i) :
    Agrees stop (.tier .primary (.unary op n (sign.span.through n.span))) (sign :: ts) rest i := by
  obtain ⟨rfl, h, rfl⟩ := h
  rw [Agrees, tier_primary, primary_signed hsign, Grammar.signed]
  exact ⟨rfl, h.cons sign, rfl⟩

theorem block {opening closing brace last : Token} {make : Node → List Node → Span → Node}
    (hword : word.block? = some make)
    (hopen : Takes stop (.openCondition word.text) ts opening ts₁ i₁)
    (hcondition : Agrees stop (.expression condition) ts₁ ts₂ i₂)
    (hclose : Takes stop (.closeCondition word.text) ts₂ closing ts₃ i₃)
    (hbrace : Takes stop (.openBody word.text) ts₃ brace ts₄ i₄)
    (hbody : Agrees stop (.statements true body) ts₄ ts₅ i₅)
    (hlast : Takes stop .closeBody ts₅ last rest i₆) :
    Agrees stop (.tier .primary (make condition body (word.span.through last.span))) (word :: ts)
      rest (i₁ ++ i₂ ++ i₃ ++ i₄ ++ i₅ ++ i₆) := by
  obtain ⟨rfl, hopenLeaves, rfl⟩ := hopen.gives
  obtain ⟨rfl, hcondition, rfl⟩ := hcondition
  obtain ⟨rfl, hcloseLeaves, rfl⟩ := hclose.gives
  obtain ⟨rfl, hbraceLeaves, rfl⟩ := hbrace.gives
  obtain ⟨rfl, hbody, rfl⟩ := hbody
  obtain ⟨rfl, hlastLeaves, rfl⟩ := hlast.gives
  have hafterCondition := hopenLeaves.add hcondition
  have hafterClosing := hafterCondition.add hcloseLeaves
  have hafterBrace := hafterClosing.add hbraceLeaves
  have hafterBody := hafterBrace.add hbody
  rw [Agrees, tier_primary, primary_block hword, Grammar.block]
  simp only [hopenLeaves.drop_eq, hafterCondition.drop_eq, hafterClosing.drop_eq,
    hafterBrace.drop_eq, hafterBody.drop_eq]
  exact ⟨rfl, (hafterBody.cons word).add hlastLeaves, rfl⟩

theorem missing (hstop : stop.kind = .endOfInput) (h : ¬ (lookahead stop ts).startsPrimary) :
    Agrees stop (.tier .primary (.missing (lookahead stop ts).span)) ts
      (ts.drop (missingExpression stop ts).used)
      [MissingExpression.diagnostic (lookahead stop ts)] := by
  rw [Agrees, tier_primary, primary_other h]
  exact ⟨rfl, leaves_missingExpression hstop ts, rfl⟩

theorem breakLoop (hword : word.keyword? = some .breakWord)
    (hmark : Takes stop .endOfBreak ts mark rest i) :
    Agrees stop (.statement (.breakLoop word.span)) (word :: ts) rest i := by
  obtain ⟨rfl, hmarkLeaves, rfl⟩ := hmark.gives
  rw [Agrees, statement]
  simp only [lookahead_cons, hword]
  exact ⟨rfl, hmarkLeaves.cons word, rfl⟩

theorem continueLoop (hword : word.keyword? = some .continueWord)
    (hmark : Takes stop .endOfContinue ts mark rest i) :
    Agrees stop (.statement (.continueLoop word.span)) (word :: ts) rest i := by
  obtain ⟨rfl, hmarkLeaves, rfl⟩ := hmark.gives
  rw [Agrees, statement]
  simp only [lookahead_cons, hword]
  exact ⟨rfl, hmarkLeaves.cons word, rfl⟩

section
variable (hbreak : (lookahead stop ts).keyword? ≠ some .breakWord)
  (hcontinue : (lookahead stop ts).keyword? ≠ some .continueWord)
include hbreak hcontinue

theorem closed (h : Agrees stop (.expression n) ts ts₁ i₁) (hn : n.isBlock = false)
    (hmark : Takes stop .endOfStatement ts₁ mark rest i₂) :
    Agrees stop (.statement n) ts rest (i₁ ++ i₂) := by
  obtain ⟨rfl, h, rfl⟩ := h
  obtain ⟨rfl, hmarkLeaves, rfl⟩ := hmark.gives
  rw [Agrees, statement_expression hbreak hcontinue]
  simp only [h.drop_eq, terminator, hn, Bool.false_eq_true, if_false]
  exact ⟨rfl, h.add hmarkLeaves, rfl⟩

theorem closedBlock (h : Agrees stop (.expression n) ts (mark :: rest) i) (hn : n.isBlock = true)
    (hmark : mark.kind = .semicolon) : Agrees stop (.statement n) ts rest i := by
  obtain ⟨rfl, h, rfl⟩ := h
  rw [Agrees, statement_expression hbreak hcontinue]
  simp only [h.drop_eq, terminator, hn, ↓reduceIte, lookahead_cons, hmark, List.append_nil]
  exact ⟨rfl, h.add (.one mark rest), rfl⟩

theorem bareBlock (h : Agrees stop (.expression n) ts rest i) (hn : n.isBlock = true)
    (hmark : (lookahead stop rest).kind ≠ .semicolon) : Agrees stop (.statement n) ts rest i := by
  obtain ⟨rfl, h, rfl⟩ := h
  rw [Agrees, statement_expression hbreak hcontinue]
  simp only [h.drop_eq, terminator, hn, ↓reduceIte, if_neg hmark, List.append_nil]
  exact ⟨rfl, h, rfl⟩

end

theorem finished (inBlock : Bool) : Agrees stop (.statements inBlock []) [] [] [] := by
  rw [Agrees, statements]
  exact ⟨rfl, .zero [], rfl⟩

theorem closing {brace : Token} (hbrace : brace.kind = .rightBrace) :
    Agrees stop (.statements true []) (brace :: ts) (brace :: ts) [] := by
  rw [Agrees, statements, if_pos (by simp [hbrace])]
  exact ⟨rfl, .zero _, rfl⟩

theorem next {inBlock : Bool} {first : Token}
    (hfirst : (inBlock && first.kind = .rightBrace) = false)
    (h : Agrees stop (.statement n) (first :: ts) ts₁ i₁) (hless : ts₁.length ≤ ts.length)
    (hnext : Agrees stop (.statements inBlock ns) ts₁ rest i₂) :
    Agrees stop (.statements inBlock (n :: ns)) (first :: ts) rest (i₁ ++ i₂) := by
  obtain ⟨rfl, h, rfl⟩ := h
  obtain ⟨rfl, hnext, rfl⟩ := hnext
  have hused : max 1 (statement stop (first :: ts)).used = (statement stop (first :: ts)).used := by
    have hlength := h.add_length
    rw [List.length_cons] at hlength
    omega
  rw [Agrees, statements, if_neg (Bool.eq_false_iff.1 hfirst)]
  simp only [hused, h.drop_eq]
  exact ⟨rfl, h.add hnext, rfl⟩

theorem stalled {inBlock : Bool} {first : Token}
    (hfirst : (inBlock && first.kind = .rightBrace) = false)
    (h : Agrees stop (.statement n) (first :: ts) (first :: ts) i₁)
    (hnext : Agrees stop (.statements inBlock ns) ts rest i₂) :
    Agrees stop (.statements inBlock (n :: ns)) (first :: ts) rest (i₁ ++ i₂) := by
  obtain ⟨rfl, h, rfl⟩ := h
  obtain ⟨rfl, hnext, rfl⟩ := hnext
  have hused : max 1 (statement stop (first :: ts)).used = 1 := by
    have hlength := h.add_length
    omega
  rw [Agrees, statements, if_neg (Bool.eq_false_iff.1 hfirst)]
  simp only [hused, List.drop_succ_cons, List.drop_zero]
  exact ⟨rfl, (Leaves.one first ts).add hnext, rfl⟩

theorem isSuffix {f : Finding} (h : Agrees stop f ts rest i) : rest <:+ ts := by
  cases f <;> exact h.leaves.isSuffix

end Agrees

theorem Reads.agrees (hstop : stop.kind = .endOfInput) {f : Finding} {ts rest : List Token}
    {issues : List Diagnostic} (h : Reads stop f ts rest issues) :
    Agrees stop f ts rest issues := by
  induction h with
  | declare hword hname hmark _ ih => exact .declare hword hname hmark ih
  | logical hword _ ih => exact .logical hword ih
  | negation hword _ ih => exact .negation hword ih
  | operands ht hword _ _ ihleft ihchain => exact .operands ht hword ihleft ihchain
  | last hop => exact .last hop
  | join hop _ _ ihright ihchain => exact .join hop ihright ihchain
  | group hopen _ hclose ih => exact .group hopen ih hclose
  | access hname => exact .access hname
  | literal htoken => exact .literal htoken
  | signed hsign _ ih => exact .signed hsign ih
  | block hword hopen _ hclose hbrace _ hlast ihcondition ihbody =>
    exact .block hword hopen ihcondition hclose hbrace ihbody hlast
  | missing h => exact .missing hstop h
  | breakLoop hword hmark => exact .breakLoop hword hmark
  | continueLoop hword hmark => exact .continueLoop hword hmark
  | closed hbreak hcontinue _ hn hmark ih => exact .closed hbreak hcontinue ih hn hmark
  | closedBlock hbreak hcontinue _ hn hmark ih => exact .closedBlock hbreak hcontinue ih hn hmark
  | bareBlock hbreak hcontinue _ hn hmark ih => exact .bareBlock hbreak hcontinue ih hn hmark
  | finished => exact .finished _
  | closing hbrace => exact .closing hbrace
  | next hfirst _ hless _ ih ihnext => exact .next hfirst ih hless ihnext
  | stalled hfirst _ _ ih ihnext => exact .stalled hfirst ih ihnext

end Grammar
end Scriptlet
