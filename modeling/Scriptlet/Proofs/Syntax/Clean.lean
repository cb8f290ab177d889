import Scriptlet.Proofs.Syntax.Totality
import Scriptlet.Proofs.Syntax.Spelling

/-! Readings without issues. Tokens are read without an issue exactly if they spell what is
found. What is left decides where a chain of operators ends: a tree can end in front of a token
that is no operator of its tier or of a tighter one. -/

namespace Scriptlet

namespace Tier

def Rests (t : Tier) (next : Token) : Prop :=
  ∀ u : Tier, u.height ≤ t.height → u.operator? next = none

theorem Rests.mono {t u : Tier} {next : Token} (h : t.Rests next) (hle : u.height ≤ t.height) :
    u.Rests next := fun v hv => h v (Nat.le_trans hv hle)

theorem rests_primary (next : Token) : Tier.Rests .primary next := by
  intro u hu
  cases u <;> first | exact operator?_primary next | exact absurd hu (by decide)

theorem Rests.extend {t : Tier} {next : Token} (h : t.operand.Rests next)
    (hop : t.operator? next = none) : t.Rests next := fun u hu =>
  if hne : u = t then hne ▸ hop else h u (height_le_operand hu hne)

theorem rests_of_operator? {t u : Tier} {next : Token} {op : BinaryOp}
    (h : t.operator? next = some op) (hlt : u.height < t.height) : u.Rests next := fun _ hv =>
  operator?_eq_none_of_ne h fun e => absurd hv (Nat.not_le.2 (e ▸ hlt))

theorem rests_of_not_joins {next : Token} (h : ∀ t : Tier, ¬ t.joins next) (t : Tier) :
    t.Rests next :=
  fun u _ => operator?_eq_none_iff.2 (h u)

theorem rests_of_kind {next : Token} (h : next.kind ∉ TokenKind.operators) (t : Tier) :
    t.Rests next :=
  rests_of_not_joins (fun _ hjoins => h (kind_of_joins hjoins)) t

end Tier

/-- A tree of the tier can end in front of the token. -/
structure Closes (t : Tier) (n : Node) (next : Token) : Prop where
  rests : t.Rests next
  sign : n.endsInSign = true → Tier.Rests .factor next

namespace Closes
variable {t : Tier} {n left right : Node} {next : Token} {op : BinaryOp} {s : Span}

theorem of_rests (h : t.Rests next) (hle : Tier.factor.height ≤ t.height) : Closes t n next :=
  ⟨h, fun _ => h.mono hle⟩

theorem extend (h : Closes t.operand n next) (hop : t.operator? next = none) : Closes t n next :=
  ⟨h.rests.extend hop, h.sign⟩

theorem operand (h : Closes t n next) : Closes t.operand n next := by
  refine ⟨h.rests.mono ?_, h.sign⟩
  cases t <;> decide

theorem admits (h : Closes t.operand n next) (hop : t.operator? next = some op)
    (hn : t = .comparison → n.isNegation = false) : t.admits n := by
  have hsign (ht : t.height ≤ Tier.factor.height) : n.endsInSign = false := by
    refine Bool.eq_false_iff.2 fun hn => ?_
    exact nomatch hop.symm.trans (h.sign hn t ht)
  cases t with
  | logical | term | primary => trivial
  | comparison => exact hn rfl
  | factor | power => exact hsign (by decide)

theorem of_admits (h : t.admits n) (hop : t.operator? next = some op) :
    Closes t.operand n next := by
  have hne : t ≠ .primary := by
    rintro rfl
    exact nomatch hop.symm.trans (Tier.operator?_primary next)
  refine ⟨Tier.rests_of_operator? hop (Tier.height_operand_lt hne), fun hn => ?_⟩
  cases t with
  | logical | comparison | term => exact Tier.rests_of_operator? hop (by decide)
  | factor | power => exact absurd (hn.symm.trans h) (by decide)
  | primary => exact absurd rfl hne

end Closes

theorem Token.startsStatement.not_closing {x : Token} (h : x.startsStatement) (inBlock : Bool) :
    (inBlock && x.kind = .rightBrace) = false := by
  have hkind := h.kind
  cases inBlock with
  | false => rfl
  | true =>
    refine decide_eq_false fun e => ?_
    simp [e] at hkind

namespace Grammar
variable {stop : Token}

def Accounts (stop : Token) : Finding → List Token → List Token → Prop
  | .expression n, ts, rest =>
    ∃ xs, ts = xs ++ rest ∧ Spelled (.expression n) xs ∧
      (n.isBlock = true → Tier.Rests .logical (lookahead stop rest))
  | .tier t n, ts, rest =>
    ∃ xs, ts = xs ++ rest ∧ Spelled (.tier t n) xs ∧ Closes t n (lookahead stop rest)
  | .chain t left n, ts, rest =>
    ∀ ls, Spelled (.tier t left) ls → (t = .comparison → left.isNegation = false) →
      Closes t.operand left (lookahead stop ts) →
      ∃ xs, ts = xs ++ rest ∧ Spelled (.tier t n) (ls ++ xs) ∧ Closes t n (lookahead stop rest)
  | .statement n, ts, rest =>
    ∃ xs, ts = xs ++ rest ∧ (Spelled (.statement n) xs ∨
      n.isBlock = true ∧ Spelled (.expression n) xs ∧ Tier.Rests .logical (lookahead stop rest))
  | .statements inBlock ns, ts, rest =>
    ∃ xs, ts = xs ++ rest ∧ Spelled (.statements ns) xs ∧
      (rest = [] ∨ inBlock = true ∧ (lookahead stop rest).kind = .rightBrace)

theorem Takes.of_clean {e : Expectation} {ts rest : List Token} {token : Token}
    (h : Takes stop e ts token rest []) : ts = token :: rest ∧ token.kind = e.kind := by
  cases h with
  | met h => exact ⟨rfl, h⟩

namespace Accounts
variable {t : Tier} {n left right : Node} {ts ts₁ rest : List Token}

theorem operands (ht : t ≠ .primary) (hleft : Accounts stop (.tier t.operand left) ts ts₁)
    (hchain : Accounts stop (.chain t left n) ts₁ rest) : Accounts stop (.tier t n) ts rest := by
  obtain ⟨xs, rfl, hxs, hclose⟩ := hleft
  have hn : t = .comparison → left.isNegation = false := by
    rintro rfl
    exact hxs.isNegation_eq_false (by decide)
  obtain ⟨ys, rfl, hys, hclose⟩ := hchain xs (.operand ht hxs) hn hclose
  exact ⟨xs ++ ys, (List.append_assoc ..).symm, hys, hclose⟩

theorem join {token : Token} {op : BinaryOp} (hop : t.operator? token = some op)
    (hright : Accounts stop (.tier t.operand right) ts ts₁)
    (hchain : Accounts stop
      (.chain t (.binary left op right (left.span.through right.span)) n) ts₁ rest) :
    Accounts stop (.chain t left n) (token :: ts) rest := by
  intro ls hls hn hclose
  obtain ⟨xs, rfl, hxs, hright⟩ := hright
  -- a sign at the end of the left operand would have taken this operator
  have hjoin := Spelled.join hop (hclose.admits hop hn) hls hxs
  obtain ⟨ys, rfl, hys, hclose⟩ := hchain _ hjoin (fun _ => rfl) ⟨hright.rests, hright.sign⟩
  rw [List.append_assoc] at hys
  exact ⟨_, by simp, hys, hclose⟩

theorem next {inBlock : Bool} {ns : List Node} (h : Accounts stop (.statement n) ts ts₁)
    (hnext : Accounts stop (.statements inBlock ns) ts₁ rest) :
    Accounts stop (.statements inBlock (n :: ns)) ts rest := by
  obtain ⟨xs, hsplit, hxs⟩ := h
  obtain ⟨ys, rfl, hys, hend⟩ := hnext
  refine ⟨xs ++ ys, by rw [hsplit, List.append_assoc], ?_, hend⟩
  rcases hxs with hxs | ⟨hn, hxs, hrests⟩
  · exact .next hxs hys
  · -- the block stopped in front of no operator, and every sign is one
    refine .bare hn hxs (fun y hy => ?_) hys
    obtain ⟨zs, rfl⟩ := List.head?_eq_some_iff.1 hy
    exact UnaryOp.ofSign?_eq_none_iff.2 (hrests .term (by decide))

theorem not_stalled : ¬ Accounts stop (.statement n) ts ts := by
  rintro ⟨xs, hsplit, hxs⟩
  obtain rfl : xs = [] := by simpa using hsplit
  rcases hxs with hxs | ⟨-, hxs, -⟩
  · obtain ⟨x, xs, hx, -⟩ := hxs.starts
    exact nomatch hx
  · obtain ⟨x, xs, hx, -⟩ := hxs.starts
    exact nomatch hx

end Accounts

theorem Reads.accounts {f : Finding} {ts rest : List Token} {issues : List Diagnostic}
    (h : Reads stop f ts rest issues) (hclean : issues = []) : Accounts stop f ts rest := by
  induction h with
  | declare hword hname hmark _ ih =>
    simp only [List.append_eq_nil_iff] at hclean
    obtain ⟨⟨rfl, rfl⟩, hclean⟩ := hclean
    obtain ⟨rfl, hnamed⟩ := hname.of_clean
    obtain ⟨rfl, hmarked⟩ := hmark.of_clean
    obtain ⟨xs, rfl, hxs, -⟩ := ih hclean
    exact ⟨_, rfl, .declare hword hnamed hmarked hxs, nofun⟩
  | logical _ _ ih =>
    obtain ⟨xs, rfl, hxs, hclose⟩ := ih hclean
    exact ⟨xs, rfl, .logical hxs, fun _ => hclose.rests⟩
  | negation hword _ ih =>
    obtain ⟨xs, rfl, hxs, hclose⟩ := ih hclean
    exact ⟨_, rfl, .negation hword hxs, hclose.rests, hclose.sign⟩
  | operands ht _ _ _ ihleft ihchain =>
    obtain ⟨hleft, hchain⟩ := List.append_eq_nil_iff.1 hclean
    exact .operands ht (ihleft hleft) (ihchain hchain)
  | last hop =>
    intro ls hls _ hclose
    exact ⟨[], rfl, (List.append_nil ls).symm ▸ hls, hclose.extend hop⟩
  | join hop _ _ ihright ihchain =>
    obtain ⟨hright, hchain⟩ := List.append_eq_nil_iff.1 hclean
    exact .join hop (ihright hright) (ihchain hchain)
  | group hopen _ hclose ih =>
    obtain ⟨hinner, rfl⟩ := List.append_eq_nil_iff.1 hclean
    obtain ⟨xs, rfl, hxs, -⟩ := ih hinner
    obtain ⟨rfl, hclosed⟩ := hclose.of_clean
    exact ⟨_, by simp, .group hopen hxs hclosed, Tier.rests_primary _, nofun⟩
  | access hname => exact ⟨[_], rfl, .access hname, Tier.rests_primary _, nofun⟩
  | literal htoken => exact ⟨[_], rfl, .literal htoken, Tier.rests_primary _, nofun⟩
  | signed hsign _ ih =>
    obtain ⟨xs, rfl, hxs, hclose⟩ := ih hclean
    exact ⟨_ :: xs, rfl, .signed hsign hxs, Tier.rests_primary _, fun _ => hclose.rests⟩
  | block hword hopen _ hclose hbrace _ hlast ihcondition ihbody =>
    simp only [List.append_eq_nil_iff] at hclean
    obtain ⟨⟨⟨⟨⟨rfl, hcondition⟩, rfl⟩, rfl⟩, hbody⟩, rfl⟩ := hclean
    obtain ⟨rfl, hopened⟩ := hopen.of_clean
    obtain ⟨xs, rfl, hxs, -⟩ := ihcondition hcondition
    obtain ⟨rfl, hclosed⟩ := hclose.of_clean
    obtain ⟨rfl, hbraced⟩ := hbrace.of_clean
    obtain ⟨ys, rfl, hys, -⟩ := ihbody hbody
    obtain ⟨rfl, hended⟩ := hlast.of_clean
    refine ⟨_, ?_, .block hword hopened hxs hclosed hbraced hys hended, Tier.rests_primary _, ?_⟩
    · simp
    · obtain ⟨-, rfl⟩ | ⟨-, rfl⟩ := Token.block?_eq_some hword <;> exact nofun
  | missing => exact nomatch hclean
  | breakLoop hword hmark =>
    subst hclean
    obtain ⟨rfl, hmarked⟩ := hmark.of_clean
    exact ⟨[_, _], rfl, .inl (.breakLoop hword hmarked)⟩
  | continueLoop hword hmark =>
    subst hclean
    obtain ⟨rfl, hmarked⟩ := hmark.of_clean
    exact ⟨[_, _], rfl, .inl (.continueLoop hword hmarked)⟩
  | closed _ _ _ _ hmark ih =>
    obtain ⟨hexpression, rfl⟩ := List.append_eq_nil_iff.1 hclean
    obtain ⟨xs, rfl, hxs, -⟩ := ih hexpression
    obtain ⟨rfl, hmarked⟩ := hmark.of_clean
    exact ⟨_, by simp, .inl (.closed hxs hmarked)⟩
  | closedBlock _ _ _ _ hmark ih =>
    obtain ⟨xs, rfl, hxs, -⟩ := ih hclean
    exact ⟨_, by simp, .inl (.closed hxs hmark)⟩
  | bareBlock _ _ _ hn _ ih =>
    obtain ⟨xs, rfl, hxs, hrests⟩ := ih hclean
    exact ⟨xs, rfl, .inr ⟨hn, hxs, hrests hn⟩⟩
  | finished => exact ⟨[], rfl, .finished, .inl rfl⟩
  | closing hbrace => exact ⟨[], rfl, .finished, .inr ⟨rfl, hbrace⟩⟩
  | next _ _ _ _ ih ihnext =>
    obtain ⟨hstatement, hnext⟩ := List.append_eq_nil_iff.1 hclean
    exact (ih hstatement).next (ihnext hnext)
  | stalled _ _ _ ih =>
    obtain ⟨hstatement, -⟩ := List.append_eq_nil_iff.1 hclean
    exact absurd (ih hstatement) Accounts.not_stalled

def Ends (inBlock : Bool) (rest : List Token) : Prop :=
  rest = [] ∨ ∃ brace ts, inBlock = true ∧ rest = brace :: ts ∧ brace.kind = .rightBrace

/-- A spelling is read without issues, whatever follows it. An operand of a tier goes on as a
chain from its own end, which is what the operands left of an operator need. -/
def Produces (stop : Token) : Phrase → List Token → Prop
  | .expression n, xs =>
    ∀ rest, Tier.Rests .logical (lookahead stop rest) →
      Reads stop (.expression n) (xs ++ rest) rest []
  | .tier t n, xs =>
    (∀ rest, Closes t n (lookahead stop rest) → Reads stop (.tier t n) (xs ++ rest) rest []) ∧
      (t ≠ .primary → (t = .comparison → n.isNegation = false) → ∀ rest m after issues,
        Closes t.operand n (lookahead stop rest) → Reads stop (.chain t n m) rest after issues →
        Reads stop (.tier t m) (xs ++ rest) after issues)
  | .statement n, xs => ∀ rest, Reads stop (.statement n) (xs ++ rest) rest []
  | .statements ns, xs =>
    ∀ inBlock rest, Ends inBlock rest → Reads stop (.statements inBlock ns) (xs ++ rest) rest []

theorem rests_lookahead (hstop : stop.kind = .endOfInput) {inBlock : Bool} {rest : List Token}
    (h : Ends inBlock rest) (t : Tier) : t.Rests (lookahead stop rest) := by
  refine Tier.rests_of_kind ?_ t
  obtain rfl | ⟨brace, ts, -, rfl, hbrace⟩ := h
  · simp [hstop, TokenKind.operators]
  · simp [hbrace, TokenKind.operators]

theorem kind_lookahead_ne (hstop : stop.kind = .endOfInput) {inBlock : Bool} {rest : List Token}
    (h : Ends inBlock rest) : (lookahead stop rest).kind ≠ .semicolon := by
  obtain rfl | ⟨brace, ts, -, rfl, hbrace⟩ := h
  · simp [hstop]
  · simp [hbrace]

namespace Produces
variable {t : Tier} {n left right condition : Node} {ns body : List Node} {xs ys ts : List Token}

theorem primary (h : ∀ rest, Closes .primary n (lookahead stop rest) →
    Reads stop (.tier .primary n) (xs ++ rest) rest []) : Produces stop (.tier .primary n) xs :=
  ⟨h, fun ht => absurd rfl ht⟩

theorem tier (h : ∀ rest m after issues, Closes t.operand n (lookahead stop rest) →
    Reads stop (.chain t n m) rest after issues →
      Reads stop (.tier t m) (xs ++ rest) after issues) :
    Produces stop (.tier t n) xs :=
  ⟨fun rest hclose => h rest n rest [] hclose.operand (.last (hclose.rests t (Nat.le_refl _))),
    fun _ _ => h⟩

theorem logical (hts : Spelled (.tier .logical n) ts) (h : Produces stop (.tier .logical n) ts) :
    Produces stop (.expression n) ts := by
  intro rest hrests
  obtain ⟨x, xs, rfl, hx⟩ := hts.starts
  refine .logical ?_ (h.1 rest (.of_rests hrests (by decide)))
  rcases hx.keyword? with h | h | h | h <;> simp [h]

theorem operand (ht : t ≠ .primary) (hts : Spelled (.tier t.operand n) ts)
    (h : Produces stop (.tier t.operand n) ts) : Produces stop (.tier t n) ts := by
  refine tier fun rest m after issues hclose hchain => ?_
  obtain ⟨x, xs, rfl, hx⟩ := hts.starts
  refine .operands ht ?_ (h.1 rest hclose) hchain
  rintro ⟨rfl, hword⟩
  rcases hx.keyword? with h | h | h | h
  · exact nomatch hword.symm.trans h
  · exact nomatch hword.symm.trans h
  · exact nomatch hword.symm.trans h
  · exact absurd h.2 (by decide)

theorem join {token : Token} {op : BinaryOp} (hop : t.operator? token = some op)
    (hadmits : t.admits left) (hleft : Produces stop (.tier t left) xs)
    (hright : Produces stop (.tier t.operand right) ys) :
    Produces stop (.tier t (.binary left op right (left.span.through right.span)))
      (xs ++ token :: ys) := by
  have ht : t ≠ .primary := by
    rintro rfl
    exact nomatch hop.symm.trans (Tier.operator?_primary token)
  have hn : t = .comparison → left.isNegation = false := by
    rintro rfl
    exact hadmits
  refine tier fun rest m after issues hclose hchain => ?_
  have hright := hright.1 rest ⟨hclose.rests, hclose.sign⟩
  have hjoin := Reads.join hop hright hchain
  have h := hleft.2 ht hn (token :: (ys ++ rest)) m after issues (.of_admits hadmits hop) hjoin
  simpa using h

theorem group {opening close : Token} (hopen : opening.kind = .leftParen)
    (h : Produces stop (.expression n) xs) (hclose : close.kind = .rightParen) :
    Produces stop (.tier .primary (.group n (opening.span.through close.span)))
      (opening :: (xs ++ [close])) := by
  refine primary fun rest _ => ?_
  have hinner := h (close :: rest) (Tier.rests_of_kind (by simp [hclose, TokenKind.operators]) _)
  simpa using Reads.group hopen hinner (.met hclose)

theorem signed {sign : Token} {op : UnaryOp} (hsign : UnaryOp.ofSign? sign = some op)
    (h : Produces stop (.tier .factor n) xs) :
    Produces stop (.tier .primary (.unary op n (sign.span.through n.span))) (sign :: xs) := by
  refine primary fun rest hclose => .signed hsign (h.1 rest ?_)
  exact .of_rests (hclose.sign (Node.signed_of_ofSign? hsign _ _).2) (Nat.le_refl _)

theorem block {word opening closing brace last : Token} {make : Node → List Node → Span → Node}
    (hword : word.block? = some make) (hopen : opening.kind = .leftParen)
    (hcondition : Produces stop (.expression condition) xs) (hclose : closing.kind = .rightParen)
    (hbrace : brace.kind = .leftBrace) (hbody : Produces stop (.statements body) ys)
    (hlast : last.kind = .rightBrace) :
    Produces stop (.tier .primary (make condition body (word.span.through last.span)))
      (word :: opening :: (xs ++ closing :: brace :: (ys ++ [last]))) := by
  refine primary fun rest _ => ?_
  have hrests : Tier.Rests .logical closing :=
    Tier.rests_of_kind (by simp [hclose, TokenKind.operators]) _
  have hcondition := hcondition (closing :: brace :: (ys ++ last :: rest)) hrests
  have hbody := hbody true (last :: rest) (.inr ⟨last, rest, rfl, rfl, hlast⟩)
  simpa using
    Reads.block hword (.met hopen) hcondition (.met hclose) (.met hbrace) hbody (.met hlast)

theorem closed {mark : Token} (hts : Spelled (.expression n) ts)
    (h : Produces stop (.expression n) ts) (hmark : mark.kind = .semicolon) :
    Produces stop (.statement n) (ts ++ [mark]) := by
  intro rest
  have hexpression :=
    h (mark :: rest) (Tier.rests_of_kind (by simp [hmark, TokenKind.operators]) _)
  obtain ⟨x, xs, rfl, hx⟩ := hts.starts
  have hx : x.keyword? ≠ some .breakWord ∧ x.keyword? ≠ some .continueWord := hx.keyword?
  rw [List.append_assoc]
  cases hn : n.isBlock with
  | true => exact .closedBlock (by exact hx.1) (by exact hx.2) hexpression hn hmark
  | false => exact .closed (by exact hx.1) (by exact hx.2) hexpression hn (.met hmark)

theorem next (hxs : Spelled (.statement n) xs) (h : Produces stop (.statement n) xs)
    (hnext : Produces stop (.statements ns) ys) :
    Produces stop (.statements (n :: ns)) (xs ++ ys) := by
  intro inBlock rest hend
  have hstatement := h (ys ++ rest)
  obtain ⟨x, xs, rfl, hx⟩ := hxs.starts
  rw [List.append_assoc]
  exact .next (hx.not_closing inBlock) hstatement (by simp) (hnext inBlock rest hend)

theorem bare (hstop : stop.kind = .endOfInput) (hn : n.isBlock = true)
    (hxs : Spelled (.expression n) xs) (hys : Spelled (.statements ns) ys)
    (hsign : ∀ y ∈ ys.head?, UnaryOp.ofSign? y = none) (h : Produces stop (.expression n) xs)
    (hnext : Produces stop (.statements ns) ys) :
    Produces stop (.statements (n :: ns)) (xs ++ ys) := by
  intro inBlock rest hend
  have hrests : Tier.Rests .logical (lookahead stop (ys ++ rest)) ∧
      (lookahead stop (ys ++ rest)).kind ≠ .semicolon := by
    cases ys with
    | nil => exact ⟨rests_lookahead hstop hend _, kind_lookahead_ne hstop hend⟩
    | cons y ys =>
      have hy : y.startsStatement := hys.starts y rfl
      refine ⟨Tier.rests_of_not_joins (hy.not_joins (hsign y rfl)) _, fun hk => ?_⟩
      simpa [show y.kind = .semicolon from hk] using hy.kind
  obtain ⟨x, xs, rfl, hx⟩ := hxs.starts
  have hword : x.keyword? ≠ some .breakWord ∧ x.keyword? ≠ some .continueWord := hx.keyword?
  have hstatement := Reads.bareBlock (by exact hword.1) (by exact hword.2)
    (h (ys ++ rest) hrests.1) hn hrests.2
  rw [List.append_assoc]
  exact .next (Token.startsStatement.not_closing (.inl hx) inBlock) hstatement (by simp)
    (hnext inBlock rest hend)

end Produces

theorem produces (hstop : stop.kind = .endOfInput) {p : Phrase} {ts : List Token}
    (h : Spelled p ts) : Produces stop p ts := by
  induction h with
  | declare hword hname hmark _ ih =>
    intro rest hrests
    exact .declare hword (.met hname) (.met hmark) (ih rest hrests)
  | logical h ih => exact .logical h ih
  | negation hword _ ih =>
    refine ⟨fun rest hclose => .negation hword (ih.1 rest ⟨hclose.rests, hclose.sign⟩), ?_⟩
    exact fun _ hn => nomatch hn rfl
  | operand ht h ih => exact .operand ht h ih
  | join hop hadmits _ _ ihleft ihright => exact .join hop hadmits ihleft ihright
  | group hopen _ hclose ih => exact .group hopen ih hclose
  | access hname => exact .primary fun _ _ => .access hname
  | literal htoken => exact .primary fun _ _ => .literal htoken
  | signed hsign _ ih => exact .signed hsign ih
  | block hword hopen _ hclose hbrace _ hlast ihcondition ihbody =>
    exact .block hword hopen ihcondition hclose hbrace ihbody hlast
  | breakLoop hword hmark => exact fun rest => .breakLoop hword (.met hmark)
  | continueLoop hword hmark => exact fun rest => .continueLoop hword (.met hmark)
  | closed h hmark ih => exact .closed h ih hmark
  | finished =>
    rintro inBlock rest (rfl | ⟨brace, ts, rfl, rfl, hbrace⟩)
    · exact .finished
    · exact .closing hbrace
  | next h _ ih ihnext => exact .next h ih ihnext
  | bare hn h hsign hnext ih ihnext => exact .bare hstop hn h hnext hsign ih ihnext

end Grammar

theorem parse_eq_iff_spelled {ts : List Token} (hts : ts ≠ []) {p : Program}
    (ds : List Diagnostic) :
    parse ts ds = ⟨p, ds⟩ ↔ Spelled (.statements p) (Tokens.proper ts) := by
  have hstop := Tokens.kind_stop ts
  have hparse := parse_eq_iff hts (p := p) ds []
  rw [List.append_nil] at hparse
  rw [hparse]
  constructor
  · rintro ⟨rest, hreads⟩
    obtain ⟨xs, hsplit, hxs, rfl | h⟩ := hreads.accounts rfl
    · rwa [hsplit, List.append_nil]
    · exact nomatch h.1
  · intro h
    have hreads := Grammar.produces hstop h false [] (.inl rfl)
    rw [List.append_nil] at hreads
    exact ⟨[], hreads⟩

theorem parse_diagnostics_eq_iff {ts : List Token} (hts : ts ≠ []) {ds : List Diagnostic} :
    (parse ts ds).diagnostics = ds ↔
      Spelled (.statements (parse ts ds).program) (Tokens.proper ts) := by
  refine Iff.trans ?_ (parse_eq_iff_spelled hts ds)
  exact ⟨fun h => congrArg (Parsed.mk _) h, fun h => congrArg Parsed.diagnostics h⟩

end Scriptlet
