import Scriptlet.Syntax.Parse

/-! Reading as a relation. Every way in which a rule of the grammar can go is one constructor
of `Reads`: what is found, what is left of the tokens, and which demands were not met. The
relation is exactly the graph of the reading functions, so that facts about reading are shown
by induction on it. -/

namespace Scriptlet

namespace Token

theorem kind_of_keyword? {t : Token} {k : Keyword} (h : t.keyword? = some k) :
    t.kind = .keyword := by
  unfold keyword? at h
  split at h
  · assumption
  · exact nomatch h

theorem keyword?_eq_none {t : Token} (h : t.kind ≠ .keyword) : t.keyword? = none :=
  Option.eq_none_iff_forall_ne_some.2 fun _ hk => h (kind_of_keyword? hk)

end Token

namespace UnaryOp

def ofSign? (t : Token) : Option UnaryOp :=
  match t.kind with
  | .plus => some plus
  | .minus => some negate
  | _ => none

end UnaryOp

namespace Token

def block? (t : Token) : Option (Node → List Node → Span → Node) :=
  match t.keyword? with
  | some .ifWord => some .branch
  | some .whileWord => some .loop
  | _ => none

theorem block?_eq_some {t : Token} {make : Node → List Node → Span → Node}
    (h : t.block? = some make) :
    t.keyword? = some .ifWord ∧ make = .branch ∨ t.keyword? = some .whileWord ∧ make = .loop := by
  unfold block? at h
  split at h
  · next hword => exact .inl ⟨hword, (Option.some.inj h).symm⟩
  · next hword => exact .inr ⟨hword, (Option.some.inj h).symm⟩
  · cases h

def startsPrimary (t : Token) : Prop :=
  t.kind = .leftParen ∨ t.kind = .identifier ∨ t.kind = .number ∨
    (UnaryOp.ofSign? t).isSome ∨ t.block?.isSome

end Token

structure Leaves (ts : List Token) (n : Nat) (rest : List Token) : Prop where
  le : n ≤ ts.length
  drop_eq : ts.drop n = rest

namespace Leaves
variable {ts ts₁ rest : List Token} {m n : Nat}

theorem zero (ts : List Token) : Leaves ts 0 ts := ⟨Nat.zero_le _, rfl⟩

theorem cons (first : Token) (h : Leaves ts n rest) : Leaves (first :: ts) (1 + n) rest := by
  rw [Nat.add_comm]
  exact ⟨Nat.succ_le_succ h.le, h.drop_eq⟩

theorem one (first : Token) (ts : List Token) : Leaves (first :: ts) 1 ts := (zero ts).cons first

theorem add_length (h : Leaves ts n rest) : n + rest.length = ts.length := by
  rw [← h.drop_eq, List.length_drop]
  exact Nat.add_sub_cancel' h.le

theorem add (h : Leaves ts m ts₁) (hlater : Leaves ts₁ n rest) : Leaves ts (m + n) rest := by
  have hle := hlater.le
  have hlength := h.add_length
  exact ⟨by omega, by rw [← List.drop_drop, h.drop_eq, hlater.drop_eq]⟩

theorem isSuffix (h : Leaves ts n rest) : rest <:+ ts := h.drop_eq ▸ List.drop_suffix n ts

end Leaves

namespace Reading

structure Gives {α : Type} (r : Reading α) (ts : List Token) (value : α) (rest : List Token)
    (issues : List Diagnostic) : Prop where
  value_eq : r.value = value
  leaves : Leaves ts r.used rest
  issues_eq : r.issues = issues

theorem Gives.unique {α : Type} {r : Reading α} {ts rest rest' : List Token} {value value' : α}
    {issues issues' : List Diagnostic} (h : r.Gives ts value rest issues)
    (h' : r.Gives ts value' rest' issues') : value = value' ∧ rest = rest' ∧ issues = issues' :=
  ⟨h.value_eq.symm.trans h'.value_eq, h.leaves.drop_eq.symm.trans h'.leaves.drop_eq,
    h.issues_eq.symm.trans h'.issues_eq⟩

end Reading

namespace Grammar

@[simp] theorem lookahead_cons (stop first : Token) (ts : List Token) :
    lookahead stop (first :: ts) = first := rfl

@[simp] theorem lookahead_nil (stop : Token) : lookahead stop [] = stop := rfl

theorem keyword?_stop {stop : Token} (hstop : stop.kind = .endOfInput) : stop.keyword? = none :=
  Token.keyword?_eq_none (by simp [hstop])

theorem operator?_stop {stop : Token} (hstop : stop.kind = .endOfInput) (t : Tier) :
    t.operator? stop = none := by
  simp [Tier.operator?, BinaryOp.ofToken?, hstop, keyword?_stop hstop]

/-- What a rule of the grammar finds. A chain starts from an operand found before. -/
inductive Finding
  | expression (n : Node)
  | tier (t : Tier) (n : Node)
  | chain (t : Tier) (left n : Node)
  | statement (n : Node)
  | statements (inBlock : Bool) (ns : List Node)

inductive Takes (stop : Token) (e : Expectation) :
    List Token → Token → List Token → List Diagnostic → Prop
  | met {first rest} (h : first.kind = e.kind) : Takes stop e (first :: rest) first rest []
  | unmet {ts} (h : (lookahead stop ts).kind ≠ e.kind) :
      Takes stop e ts ⟨e.kind, "", none, (lookahead stop ts).span⟩ ts
        [e.diagnostic (lookahead stop ts)]

inductive Reads (stop : Token) : Finding → List Token → List Token → List Diagnostic → Prop
  | declare {word name mark : Token} {value : Node} {ts ts₁ ts₂ rest i₁ i₂ i₃}
      (hword : word.keyword? = some .declare)
      (hname : Takes stop .declaredName ts name ts₁ i₁)
      (hmark : Takes stop .declaredEqual ts₁ mark ts₂ i₂)
      (hvalue : Reads stop (.expression value) ts₂ rest i₃) :
      Reads stop (.expression (.declare name value (word.span.through value.span)))
        (word :: ts) rest (i₁ ++ i₂ ++ i₃)
  | logical {n ts rest i} (hword : (lookahead stop ts).keyword? ≠ some .declare)
      (h : Reads stop (.tier .logical n) ts rest i) : Reads stop (.expression n) ts rest i
  | negation {word : Token} {n : Node} {ts rest i} (hword : word.keyword? = some .notWord)
      (h : Reads stop (.tier .comparison n) ts rest i) :
      Reads stop (.tier .comparison (.unary .not n (word.span.through n.span))) (word :: ts) rest i
  | operands {t left n ts ts₁ rest i₁ i₂} (ht : t ≠ .primary)
      (hword : ¬ (t = .comparison ∧ (lookahead stop ts).keyword? = some .notWord))
      (hleft : Reads stop (.tier t.operand left) ts ts₁ i₁)
      (hchain : Reads stop (.chain t left n) ts₁ rest i₂) :
      Reads stop (.tier t n) ts rest (i₁ ++ i₂)
  | last {t n ts} (hop : t.operator? (lookahead stop ts) = none) :
      Reads stop (.chain t n n) ts ts []
  | join {t : Tier} {token op} {left right n : Node} {ts ts₁ rest i₁ i₂}
      (hop : t.operator? token = some op)
      (hright : Reads stop (.tier t.operand right) ts ts₁ i₁)
      (hchain : Reads stop
        (.chain t (.binary left op right (left.span.through right.span)) n) ts₁ rest i₂) :
      Reads stop (.chain t left n) (token :: ts) rest (i₁ ++ i₂)
  | group {opening close : Token} {n ts ts₁ rest i₁ i₂} (hopen : opening.kind = .leftParen)
      (h : Reads stop (.expression n) ts ts₁ i₁)
      (hclose : Takes stop .closeGroup ts₁ close rest i₂) :
      Reads stop (.tier .primary (.group n (opening.span.through close.span)))
        (opening :: ts) rest (i₁ ++ i₂)
  | access {name ts} (hname : name.kind = .identifier) :
      Reads stop (.tier .primary (.access name)) (name :: ts) ts []
  | literal {token ts} (htoken : token.kind = .number) :
      Reads stop (.tier .primary (.literal token)) (token :: ts) ts []
  | signed {sign : Token} {op} {n : Node} {ts rest i} (hsign : UnaryOp.ofSign? sign = some op)
      (h : Reads stop (.tier .factor n) ts rest i) :
      Reads stop (.tier .primary (.unary op n (sign.span.through n.span))) (sign :: ts) rest i
  | block {word opening closing brace last : Token} {make} {condition : Node} {body : List Node}
      {ts ts₁ ts₂ ts₃ ts₄ ts₅ rest i₁ i₂ i₃ i₄ i₅ i₆}
      (hword : word.block? = some make)
      (hopen : Takes stop (.openCondition word.text) ts opening ts₁ i₁)
      (hcondition : Reads stop (.expression condition) ts₁ ts₂ i₂)
      (hclose : Takes stop (.closeCondition word.text) ts₂ closing ts₃ i₃)
      (hbrace : Takes stop (.openBody word.text) ts₃ brace ts₄ i₄)
      (hbody : Reads stop (.statements true body) ts₄ ts₅ i₅)
      (hlast : Takes stop .closeBody ts₅ last rest i₆) :
      Reads stop (.tier .primary (make condition body (word.span.through last.span)))
        (word :: ts) rest (i₁ ++ i₂ ++ i₃ ++ i₄ ++ i₅ ++ i₆)
  | missing {ts} (h : ¬ (lookahead stop ts).startsPrimary) :
      Reads stop (.tier .primary (.missing (lookahead stop ts).span)) ts
        (ts.drop (missingExpression stop ts).used)
        [MissingExpression.diagnostic (lookahead stop ts)]
  | breakLoop {word mark : Token} {ts rest i} (hword : word.keyword? = some .breakWord)
      (hmark : Takes stop .endOfBreak ts mark rest i) :
      Reads stop (.statement (.breakLoop word.span)) (word :: ts) rest i
  | continueLoop {word mark : Token} {ts rest i} (hword : word.keyword? = some .continueWord)
      (hmark : Takes stop .endOfContinue ts mark rest i) :
      Reads stop (.statement (.continueLoop word.span)) (word :: ts) rest i
  | closed {n : Node} {mark ts ts₁ rest i₁ i₂}
      (hbreak : (lookahead stop ts).keyword? ≠ some .breakWord)
      (hcontinue : (lookahead stop ts).keyword? ≠ some .continueWord)
      (h : Reads stop (.expression n) ts ts₁ i₁) (hn : n.isBlock = false)
      (hmark : Takes stop .endOfStatement ts₁ mark rest i₂) :
      Reads stop (.statement n) ts rest (i₁ ++ i₂)
  | closedBlock {n : Node} {mark : Token} {ts rest i}
      (hbreak : (lookahead stop ts).keyword? ≠ some .breakWord)
      (hcontinue : (lookahead stop ts).keyword? ≠ some .continueWord)
      (h : Reads stop (.expression n) ts (mark :: rest) i) (hn : n.isBlock = true)
      (hmark : mark.kind = .semicolon) :
      Reads stop (.statement n) ts rest i
  | bareBlock {n : Node} {ts rest i}
      (hbreak : (lookahead stop ts).keyword? ≠ some .breakWord)
      (hcontinue : (lookahead stop ts).keyword? ≠ some .continueWord)
      (h : Reads stop (.expression n) ts rest i) (hn : n.isBlock = true)
      (hmark : (lookahead stop rest).kind ≠ .semicolon) :
      Reads stop (.statement n) ts rest i
  | finished {inBlock} : Reads stop (.statements inBlock []) [] [] []
  | closing {brace ts} (hbrace : brace.kind = .rightBrace) :
      Reads stop (.statements true []) (brace :: ts) (brace :: ts) []
  | next {inBlock n ns first ts ts₁ rest i₁ i₂}
      (hfirst : (inBlock && first.kind = .rightBrace) = false)
      (h : Reads stop (.statement n) (first :: ts) ts₁ i₁) (hless : ts₁.length ≤ ts.length)
      (hnext : Reads stop (.statements inBlock ns) ts₁ rest i₂) :
      Reads stop (.statements inBlock (n :: ns)) (first :: ts) rest (i₁ ++ i₂)
  | stalled {inBlock n ns first ts rest i₁ i₂}
      (hfirst : (inBlock && first.kind = .rightBrace) = false)
      (h : Reads stop (.statement n) (first :: ts) (first :: ts) i₁)
      (hnext : Reads stop (.statements inBlock ns) ts rest i₂) :
      Reads stop (.statements inBlock (n :: ns)) (first :: ts) rest (i₁ ++ i₂)

end Grammar
end Scriptlet
