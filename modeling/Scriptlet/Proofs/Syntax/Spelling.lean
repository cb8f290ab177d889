import Scriptlet.Proofs.Syntax.Reads

/-! Trees and the tokens that spell them. `Spelled` builds a tree together with its tokens by
rules that leave no choice: a sign takes the whole factor after it, so no tree that ends in a
signed operand stands left of `^`, `*` or `/`, and a block without its semicolon is not
followed by a sign, which would continue it. -/

namespace Scriptlet

namespace Node

/-- Whether the last operand of the tree is signed. Brackets of any kind shut a sign in. -/
def endsInSign : Node → Bool
  | unary .not operand _ => operand.endsInSign
  | unary _ _ _ => true
  | binary _ _ right _ => right.endsInSign
  | _ => false

def isNegation : Node → Bool
  | unary .not _ _ => true
  | _ => false

end Node

def TokenKind.operators : List TokenKind :=
  [keyword, equalEqual, bangEqual, less, greater, lessEqual, greaterEqual, plus, minus, star, slash,
    caret]

namespace Tier

def admits : Tier → Node → Prop
  | comparison, left => left.isNegation = false
  | factor, left => left.endsInSign = false
  | power, left => left.endsInSign = false
  | _, _ => True

theorem operator?_eq_some_iff {t : Tier} {token : Token} {op : BinaryOp} :
    t.operator? token = some op ↔ BinaryOp.ofToken? token = some op ∧ op.tier = t := by
  unfold operator?
  split
  · next h => simp [h]
  · next op' h =>
    by_cases ht : op'.tier = t
    · simp only [if_pos ht, h, Option.some.injEq]
      exact ⟨fun e => ⟨e, e ▸ ht⟩, And.left⟩
    · simp only [if_neg ht, h, Option.some.injEq, reduceCtorEq, false_iff, not_and]
      rintro rfl
      exact ht

def joins : Tier → Token → Prop
  | logical, x => x.keyword? = some .andWord ∨ x.keyword? = some .orWord
  | comparison, x =>
    x.kind = .equalEqual ∨ x.kind = .bangEqual ∨ x.kind = .less ∨ x.kind = .greater ∨
      x.kind = .lessEqual ∨ x.kind = .greaterEqual
  | term, x => x.kind = .plus ∨ x.kind = .minus
  | factor, x => x.kind = .star ∨ x.kind = .slash
  | power, x => x.kind = .caret
  | primary, _ => False

theorem isSome_operator?_iff {t : Tier} {x : Token} : (t.operator? x).isSome ↔ t.joins x := by
  constructor
  · intro h
    obtain ⟨op, hop⟩ := Option.isSome_iff_exists.1 h
    obtain ⟨hof, rfl⟩ := operator?_eq_some_iff.1 hop
    unfold BinaryOp.ofToken? at hof
    split at hof
    case h_12 =>
      split at hof
      · next hword => exact Option.some.inj hof ▸ .inl hword
      · next hword => exact Option.some.inj hof ▸ .inr hword
      · exact nomatch hof
    all_goals
      next hkind =>
        obtain rfl := Option.some.inj hof
        simp [joins, BinaryOp.tier, hkind]
  · intro h
    cases t with
    | logical =>
      rcases h with h | h <;>
        simp [operator?, BinaryOp.ofToken?, Token.kind_of_keyword? h, h, BinaryOp.tier]
    | comparison =>
      rcases h with h | h | h | h | h | h <;> simp [operator?, BinaryOp.ofToken?, h, BinaryOp.tier]
    | term => rcases h with h | h <;> simp [operator?, BinaryOp.ofToken?, h, BinaryOp.tier]
    | factor => rcases h with h | h <;> simp [operator?, BinaryOp.ofToken?, h, BinaryOp.tier]
    | power => simp [operator?, BinaryOp.ofToken?, show x.kind = .caret from h, BinaryOp.tier]
    | primary => exact h.elim

theorem operator?_eq_none_iff {t : Tier} {x : Token} : t.operator? x = none ↔ ¬ t.joins x := by
  rw [← isSome_operator?_iff, Option.not_isSome_iff_eq_none]

theorem kind_of_joins {t : Tier} {x : Token} (h : t.joins x) : x.kind ∈ TokenKind.operators := by
  cases t with
  | logical => rcases h with h | h <;> simp [Token.kind_of_keyword? h, TokenKind.operators]
  | comparison => rcases h with h | h | h | h | h | h <;> simp [h, TokenKind.operators]
  | term | factor => rcases h with h | h <;> simp [h, TokenKind.operators]
  | power => simp [show x.kind = .caret from h, TokenKind.operators]
  | primary => exact h.elim

theorem operator?_eq_none_of_ne {t u : Tier} {token : Token} {op : BinaryOp}
    (h : t.operator? token = some op) (hne : u ≠ t) : u.operator? token = none := by
  refine Option.eq_none_iff_forall_ne_some.2 fun op' h' => hne ?_
  obtain ⟨hop, rfl⟩ := operator?_eq_some_iff.1 h
  obtain ⟨hop', rfl⟩ := operator?_eq_some_iff.1 h'
  rw [Option.some.inj (hop.symm.trans hop')]

theorem operator?_primary (token : Token) : primary.operator? token = none :=
  operator?_eq_none_iff.2 id

theorem height_le_operand {t u : Tier} (h : u.height ≤ t.height) (hne : u ≠ t) :
    u.height ≤ t.operand.height := by
  cases t <;> cases u <;> first | decide | exact absurd rfl hne | exact absurd h (by decide)

end Tier

theorem UnaryOp.ofSign?_eq_none_iff {t : Token} :
    UnaryOp.ofSign? t = none ↔ Tier.term.operator? t = none := by
  rw [Tier.operator?_eq_none_iff]
  unfold UnaryOp.ofSign? Tier.joins
  split <;> simp_all

theorem UnaryOp.ofSign?_eq_some {t : Token} {op : UnaryOp} (h : UnaryOp.ofSign? t = some op) :
    t.kind = .plus ∧ op = .plus ∨ t.kind = .minus ∧ op = .negate := by
  unfold UnaryOp.ofSign? at h
  split at h
  · next hk => exact .inl ⟨hk, (Option.some.inj h).symm⟩
  · next hk => exact .inr ⟨hk, (Option.some.inj h).symm⟩
  · exact nomatch h

theorem Node.signed_of_ofSign? {t : Token} {op : UnaryOp} (h : UnaryOp.ofSign? t = some op)
    (n : Node) (s : Span) :
    (Node.unary op n s).isNegation = false ∧ (Node.unary op n s).endsInSign = true := by
  obtain ⟨-, rfl⟩ | ⟨-, rfl⟩ := UnaryOp.ofSign?_eq_some h <;> exact ⟨rfl, rfl⟩

inductive Phrase
  | expression (n : Node)
  | tier (t : Tier) (n : Node)
  | statement (n : Node)
  | statements (ns : List Node)

inductive Spelled : Phrase → List Token → Prop
  | declare {word name mark : Token} {value : Node} {ts} (hword : word.keyword? = some .declare)
      (hname : name.kind = .identifier) (hmark : mark.kind = .equal)
      (hvalue : Spelled (.expression value) ts) :
      Spelled (.expression (.declare name value (word.span.through value.span)))
        (word :: name :: mark :: ts)
  | logical {n ts} (h : Spelled (.tier .logical n) ts) : Spelled (.expression n) ts
  | negation {word : Token} {n : Node} {ts} (hword : word.keyword? = some .notWord)
      (h : Spelled (.tier .comparison n) ts) :
      Spelled (.tier .comparison (.unary .not n (word.span.through n.span))) (word :: ts)
  | operand {t n ts} (ht : t ≠ .primary) (h : Spelled (.tier t.operand n) ts) :
      Spelled (.tier t n) ts
  | join {t : Tier} {token op} {left right : Node} {xs ys}
      (hop : t.operator? token = some op) (hadmits : t.admits left)
      (hleft : Spelled (.tier t left) xs) (hright : Spelled (.tier t.operand right) ys) :
      Spelled (.tier t (.binary left op right (left.span.through right.span))) (xs ++ token :: ys)
  | group {opening close : Token} {n ts} (hopen : opening.kind = .leftParen)
      (h : Spelled (.expression n) ts) (hclose : close.kind = .rightParen) :
      Spelled (.tier .primary (.group n (opening.span.through close.span)))
        (opening :: (ts ++ [close]))
  | access {name} (hname : name.kind = .identifier) : Spelled (.tier .primary (.access name)) [name]
  | literal {token} (htoken : token.kind = .number) :
      Spelled (.tier .primary (.literal token)) [token]
  | signed {sign : Token} {op} {n : Node} {ts} (hsign : UnaryOp.ofSign? sign = some op)
      (h : Spelled (.tier .factor n) ts) :
      Spelled (.tier .primary (.unary op n (sign.span.through n.span))) (sign :: ts)
  | block {word opening closing brace last : Token} {make} {condition : Node} {body : List Node}
      {xs ys} (hword : word.block? = some make) (hopen : opening.kind = .leftParen)
      (hcondition : Spelled (.expression condition) xs) (hclose : closing.kind = .rightParen)
      (hbrace : brace.kind = .leftBrace) (hbody : Spelled (.statements body) ys)
      (hlast : last.kind = .rightBrace) :
      Spelled (.tier .primary (make condition body (word.span.through last.span)))
        (word :: opening :: (xs ++ closing :: brace :: (ys ++ [last])))
  | breakLoop {word mark : Token} (hword : word.keyword? = some .breakWord)
      (hmark : mark.kind = .semicolon) : Spelled (.statement (.breakLoop word.span)) [word, mark]
  | continueLoop {word mark : Token} (hword : word.keyword? = some .continueWord)
      (hmark : mark.kind = .semicolon) :
      Spelled (.statement (.continueLoop word.span)) [word, mark]
  | closed {n mark ts} (h : Spelled (.expression n) ts) (hmark : mark.kind = .semicolon) :
      Spelled (.statement n) (ts ++ [mark])
  | finished : Spelled (.statements []) []
  | next {n ns xs ys} (h : Spelled (.statement n) xs) (hnext : Spelled (.statements ns) ys) :
      Spelled (.statements (n :: ns)) (xs ++ ys)
  | bare {n ns xs ys} (hn : n.isBlock = true) (h : Spelled (.expression n) xs)
      (hsign : ∀ y ∈ ys.head?, UnaryOp.ofSign? y = none) (hnext : Spelled (.statements ns) ys) :
      Spelled (.statements (n :: ns)) (xs ++ ys)

namespace Token

def startsTier (t : Tier) (x : Token) : Prop :=
  x.startsPrimary ∨ x.keyword? = some .notWord ∧ Tier.comparison.height ≤ t.height

def startsExpression (x : Token) : Prop :=
  x.startsTier .logical ∨ x.keyword? = some .declare

def startsStatement (x : Token) : Prop :=
  x.startsExpression ∨ x.keyword? = some .breakWord ∨ x.keyword? = some .continueWord

theorem startsPrimary.keyword? {x : Token} (h : x.startsPrimary) :
    x.keyword? = none ∨ x.keyword? = some .ifWord ∨ x.keyword? = some .whileWord := by
  rcases h with h | h | h | h | h
  · exact .inl (keyword?_eq_none (by simp [h]))
  · exact .inl (keyword?_eq_none (by simp [h]))
  · exact .inl (keyword?_eq_none (by simp [h]))
  · refine .inl (keyword?_eq_none fun hk => ?_)
    simp [UnaryOp.ofSign?, hk] at h
  · obtain ⟨make, hmake⟩ := Option.isSome_iff_exists.1 h
    exact .inr ((block?_eq_some hmake).imp And.left And.left)

theorem startsTier.keyword? {t : Tier} {x : Token} (h : x.startsTier t) :
    x.keyword? = none ∨ x.keyword? = some .ifWord ∨ x.keyword? = some .whileWord ∨
      x.keyword? = some .notWord ∧ Tier.comparison.height ≤ t.height := by
  rcases h with h | h
  · exact h.keyword?.imp_right (.imp_right .inl)
  · exact .inr (.inr (.inr h))

theorem startsExpression.keyword? {x : Token} (h : x.startsExpression) :
    x.keyword? ≠ some .breakWord ∧ x.keyword? ≠ some .continueWord := by
  rcases h with h | h
  · rcases h.keyword? with h | h | h | h <;> simp [h]
  · simp [h]

theorem startsStatement.keyword? {x : Token} (h : x.startsStatement) :
    x.keyword? ≠ some .andWord ∧ x.keyword? ≠ some .orWord := by
  rcases h with (h | h) | h | h
  · rcases h.keyword? with h | h | h | h <;> simp [h]
  all_goals simp [h]

theorem startsStatement.kind {x : Token} (h : x.startsStatement) :
    x.kind ∈ [TokenKind.leftParen, .identifier, .number, .plus, .minus, .keyword] := by
  rcases h with (((h | h | h | h | h) | h) | h) | h | h
  · simp [h]
  · simp [h]
  · simp [h]
  · obtain ⟨op, hop⟩ := Option.isSome_iff_exists.1 h
    rcases UnaryOp.ofSign?_eq_some hop with h | h <;> simp [h.1]
  · obtain ⟨make, hmake⟩ := Option.isSome_iff_exists.1 h
    rcases block?_eq_some hmake with h | h <;> simp [kind_of_keyword? h.1]
  · simp [kind_of_keyword? h.1]
  · simp [kind_of_keyword? h]
  · simp [kind_of_keyword? h]
  · simp [kind_of_keyword? h]

theorem startsStatement.not_joins {x : Token} (h : x.startsStatement)
    (hsign : UnaryOp.ofSign? x = none) (t : Tier) : ¬ t.joins x := by
  intro hjoins
  have hkind := h.kind
  have hterm := Tier.operator?_eq_none_iff.1 (UnaryOp.ofSign?_eq_none_iff.1 hsign)
  cases t with
  | logical => exact hjoins.elim h.keyword?.1 h.keyword?.2
  | term => exact hterm hjoins
  | primary => exact hjoins
  | comparison => rcases hjoins with e | e | e | e | e | e <;> simp [e] at hkind
  | factor => rcases hjoins with e | e <;> simp [e] at hkind
  | power => simp [show x.kind = .caret from hjoins] at hkind

end Token

namespace Spelled

theorem starts {p : Phrase} {ts : List Token} (h : Spelled p ts) :
    match p with
    | .expression _ => ∃ x xs, ts = x :: xs ∧ x.startsExpression
    | .tier t _ => ∃ x xs, ts = x :: xs ∧ x.startsTier t
    | .statement _ => ∃ x xs, ts = x :: xs ∧ x.startsStatement
    | .statements _ => ∀ x ∈ ts.head?, x.startsStatement := by
  induction h with
  | declare hword => exact ⟨_, _, rfl, .inr hword⟩
  | logical _ ih =>
    obtain ⟨x, xs, rfl, hx⟩ := ih
    exact ⟨x, xs, rfl, .inl hx⟩
  | negation hword => exact ⟨_, _, rfl, .inr ⟨hword, Nat.le_refl _⟩⟩
  | operand ht _ ih =>
    obtain ⟨x, xs, rfl, hx⟩ := ih
    refine ⟨x, xs, rfl, hx.imp_right fun ⟨hword, hle⟩ => ⟨hword, ?_⟩⟩
    exact Nat.le_trans hle (Nat.le_of_lt (Tier.height_operand_lt ht))
  | join _ _ _ _ ih =>
    obtain ⟨x, xs, rfl, hx⟩ := ih
    exact ⟨x, _, rfl, hx⟩
  | group hopen => exact ⟨_, _, rfl, .inl (.inl hopen)⟩
  | access hname => exact ⟨_, _, rfl, .inl (.inr (.inl hname))⟩
  | literal htoken => exact ⟨_, _, rfl, .inl (.inr (.inr (.inl htoken)))⟩
  | signed hsign => exact ⟨_, _, rfl, .inl (.inr (.inr (.inr (.inl (by simp [hsign])))))⟩
  | block hword => exact ⟨_, _, rfl, .inl (.inr (.inr (.inr (.inr (by simp [hword])))))⟩
  | breakLoop hword => exact ⟨_, _, rfl, .inr (.inl hword)⟩
  | continueLoop hword => exact ⟨_, _, rfl, .inr (.inr hword)⟩
  | closed _ _ ih =>
    obtain ⟨x, xs, rfl, hx⟩ := ih
    exact ⟨x, _, rfl, .inl hx⟩
  | finished => simp
  | next _ _ ih =>
    obtain ⟨x, xs, rfl, hx⟩ := ih
    simpa using hx
  | bare _ _ _ _ ih =>
    obtain ⟨x, xs, rfl, hx⟩ := ih
    intro y hy
    obtain rfl : x = y := by simpa using hy
    exact .inl hx

theorem of_primary {n : Node} {ts : List Token} (h : Spelled (.tier .primary n) ts) (t : Tier) :
    Spelled (.tier t n) ts := by
  have hpower : Spelled (.tier .power n) ts := .operand (by decide) h
  have hfactor : Spelled (.tier .factor n) ts := .operand (by decide) hpower
  have hterm : Spelled (.tier .term n) ts := .operand (by decide) hfactor
  have hcomparison : Spelled (.tier .comparison n) ts := .operand (by decide) hterm
  cases t with
  | primary => exact h
  | power => exact hpower
  | factor => exact hfactor
  | term => exact hterm
  | comparison => exact hcomparison
  | logical => exact .operand (by decide) hcomparison

theorem isNegation_eq_false {t : Tier} {n : Node} {ts : List Token} (h : Spelled (.tier t n) ts)
    (ht : t.height < Tier.comparison.height) : n.isNegation = false := by
  generalize hp : Phrase.tier t n = p at h
  induction h generalizing t n with
  | negation => cases hp; exact absurd ht (Nat.lt_irrefl _)
  | operand hne _ ih =>
    cases hp
    exact ih (Nat.lt_trans (Tier.height_operand_lt hne) ht) rfl
  | join | group | access | literal => cases hp; rfl
  | signed hsign =>
    cases hp
    exact (Node.signed_of_ofSign? hsign _ _).1
  | block hword =>
    cases hp
    obtain ⟨-, rfl⟩ | ⟨-, rfl⟩ := Token.block?_eq_some hword <;> rfl
  | _ => cases hp

end Spelled
end Scriptlet
