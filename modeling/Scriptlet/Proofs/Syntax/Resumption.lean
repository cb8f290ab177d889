import Scriptlet.Proofs.Syntax.Concatenation
import Scriptlet.Proofs.Syntax.Consumption

/-! Where reading starts afresh. A reading looks no further than the token that it stops at, and no
expression without blocks takes a semicolon, whatever is wrong with it. So what is read up to a
semicolon that ends a statement does not depend on what comes behind it, nor the other way round. -/

namespace Scriptlet
namespace Grammar
variable {stop stop' : Token}

def SameStart (us vs : List Token) : Prop := ∃ t us' vs', us = t :: us' ∧ vs = t :: vs'

def SameFront (rest rest' ts ts' : List Token) : Prop :=
  ∃ front, ts = front ++ rest ∧ ts' = front ++ rest'

theorem SameStart.lookahead_eq (stop stop' : Token) {us vs : List Token}
    (h : SameStart us vs) : lookahead stop us = lookahead stop' vs := by
  obtain ⟨t, us', vs', rfl, rfl⟩ := h
  rfl

theorem SameStart.cons (t : Token) (us vs : List Token) : SameStart (t :: us) (t :: vs) :=
  ⟨t, us, vs, rfl, rfl⟩

theorem SameStart.append {us : List Token} (h : us ≠ []) (vs : List Token) :
    SameStart us (us ++ vs) := by
  obtain ⟨t, us', rfl⟩ := List.exists_cons_of_ne_nil h
  exact .cons t us' _

namespace SameFront
variable {rest rest' ts ts' us us' : List Token}

theorem refl (rest rest' : List Token) : SameFront rest rest' rest rest' := ⟨[], rfl, rfl⟩

theorem cons (t : Token) (h : SameFront rest rest' ts ts') :
    SameFront rest rest' (t :: ts) (t :: ts') := by
  obtain ⟨front, rfl, rfl⟩ := h
  exact ⟨t :: front, rfl, rfl⟩

theorem trans (h : SameFront rest rest' ts ts') (hts : SameFront ts ts' us us') :
    SameFront rest rest' us us' := by
  obtain ⟨front, rfl, rfl⟩ := h
  obtain ⟨before, rfl, rfl⟩ := hts
  exact ⟨before ++ front, (List.append_assoc ..).symm, (List.append_assoc ..).symm⟩

theorem sameStart (h : SameFront rest rest' ts ts') (hrest : SameStart rest rest') :
    SameStart ts ts' := by
  obtain ⟨front, rfl, rfl⟩ := h
  cases front with
  | nil => exact hrest
  | cons t front => exact .cons t _ _

theorem eq_append (h : SameFront rest (rest ++ us) ts ts') : ts' = ts ++ us := by
  obtain ⟨front, rfl, rfl⟩ := h
  exact (List.append_assoc ..).symm

end SameFront

theorem used_missingExpression_eq (ts : List Token) :
    (missingExpression stop ts).used =
      if (lookahead stop ts).kind ∈ [.semicolon, .rightBrace, .endOfInput] then 0 else 1 := rfl

theorem Takes.elsewhere (stop' : Token) {e : Expectation} {ts rest rest' : List Token}
    {token : Token} {issues : List Diagnostic} (h : Takes stop e ts token rest issues)
    (hrest : SameStart rest rest') :
    ∃ ts', SameFront rest rest' ts ts' ∧ Takes stop' e ts' token rest' issues := by
  cases h with
  | met h => exact ⟨_, .cons _ (.refl _ _), .met h⟩
  | unmet h =>
    refine ⟨rest', .refl _ _, ?_⟩
    rw [hrest.lookahead_eq stop stop'] at h ⊢
    exact .unmet h

theorem drop_missingExpression (stop : Token) (ts : List Token) :
    (ts.drop (missingExpression stop ts).used = ts ∧
        (lookahead stop ts).kind ∈ [.semicolon, .rightBrace, .endOfInput]) ∨
      (ts.drop (missingExpression stop ts).used = ts.tail ∧
        (lookahead stop ts).kind ∉ [.semicolon, .rightBrace, .endOfInput]) := by
  rw [used_missingExpression_eq]
  split
  · next h => exact .inl ⟨rfl, h⟩
  · next h => exact .inr ⟨List.drop_one, h⟩

theorem missingExpression_elsewhere (stop' : Token) {ts rest' : List Token}
    (hrest : SameStart (ts.drop (missingExpression stop ts).used) rest') :
    ∃ ts', SameFront (ts.drop (missingExpression stop ts).used) rest' ts ts' ∧
      ts'.drop (missingExpression stop' ts').used = rest' := by
  rcases drop_missingExpression stop ts with ⟨hdrop, hkind⟩ | ⟨hdrop, hkind⟩
  · rw [hdrop] at hrest ⊢
    rw [hrest.lookahead_eq stop stop'] at hkind
    refine ⟨rest', .refl _ _, ?_⟩
    rw [used_missingExpression_eq, if_pos hkind, List.drop_zero]
  · rw [hdrop] at hrest ⊢
    obtain _ | ⟨first, ts⟩ := ts
    · obtain ⟨_, _, _, hnil, -⟩ := hrest
      cases hnil
    · refine ⟨first :: rest', .cons _ (.refl _ _), ?_⟩
      rw [lookahead_cons] at hkind
      rw [used_missingExpression_eq, lookahead_cons, if_neg hkind, List.drop_succ_cons,
        List.drop_zero]

/-- What is read in front of a token does not depend on what comes behind that token. -/
def Elsewhere (stop' : Token) (f : Finding) (ts rest : List Token) (issues : List Diagnostic) :
    Prop :=
  ∀ rest', SameStart rest rest' →
    ∃ ts', SameFront rest rest' ts ts' ∧ Reads stop' f ts' rest' issues

namespace Elsewhere
variable {n condition : Node} {ns body : List Node} {first : Token} {inBlock : Bool}
  {ts ts₁ ts₂ ts₃ ts₄ ts₅ rest : List Token} {i₁ i₂ i₃ i₄ i₅ i₆ : List Diagnostic}

theorem block {word opening closing brace last : Token} {make : Node → List Node → Span → Node}
    (hword : word.block? = some make)
    (hopen : Takes stop (.openCondition word.text) ts opening ts₁ i₁)
    (hcondition : Elsewhere stop' (.expression condition) ts₁ ts₂ i₂)
    (hclose : Takes stop (.closeCondition word.text) ts₂ closing ts₃ i₃)
    (hbrace : Takes stop (.openBody word.text) ts₃ brace ts₄ i₄)
    (hbody : Elsewhere stop' (.statements true body) ts₄ ts₅ i₅)
    (hlast : Takes stop .closeBody ts₅ last rest i₆) :
    Elsewhere stop' (.tier .primary (make condition body (word.span.through last.span)))
      (word :: ts) rest (i₁ ++ i₂ ++ i₃ ++ i₄ ++ i₅ ++ i₆) := by
  intro rest' hrest
  obtain ⟨ts₅', h₅, hlast⟩ := hlast.elsewhere stop' hrest
  have hstart₅ := h₅.sameStart hrest
  obtain ⟨ts₄', h₄, hbody⟩ := hbody _ hstart₅
  have hstart₄ := h₄.sameStart hstart₅
  obtain ⟨ts₃', h₃, hbrace⟩ := hbrace.elsewhere stop' hstart₄
  have hstart₃ := h₃.sameStart hstart₄
  obtain ⟨ts₂', h₂, hclose⟩ := hclose.elsewhere stop' hstart₃
  have hstart₂ := h₂.sameStart hstart₃
  obtain ⟨ts₁', h₁, hcondition⟩ := hcondition _ hstart₂
  obtain ⟨ts', h, hopen⟩ := hopen.elsewhere stop' (h₁.sameStart hstart₂)
  exact ⟨_, .cons _ (h₅.trans (h₄.trans (h₃.trans (h₂.trans (h₁.trans h))))),
    .block hword hopen hcondition hclose hbrace hbody hlast⟩

theorem missing (h : ¬ (lookahead stop ts).startsPrimary) :
    Elsewhere stop' (.tier .primary (.missing (lookahead stop ts).span)) ts
      (ts.drop (missingExpression stop ts).used)
      [MissingExpression.diagnostic (lookahead stop ts)] := by
  intro rest' hrest
  obtain ⟨ts', hts, hdrop⟩ := missingExpression_elsewhere stop' hrest
  rw [(hts.sameStart hrest).lookahead_eq stop stop'] at h ⊢
  have hread := Reads.missing h
  rw [hdrop] at hread
  exact ⟨ts', hts, hread⟩

theorem next (hfirst : (inBlock && first.kind = .rightBrace) = false)
    (h : Elsewhere stop' (.statement n) (first :: ts) ts₁ i₁) (hless : ts₁.length ≤ ts.length)
    (hnext : Elsewhere stop' (.statements inBlock ns) ts₁ rest i₂) :
    Elsewhere stop' (.statements inBlock (n :: ns)) (first :: ts) rest (i₁ ++ i₂) := by
  intro rest' hrest
  obtain ⟨ts₁', h₁, hnext⟩ := hnext _ hrest
  obtain ⟨us, ⟨front, hfront, rfl⟩, hstatement⟩ := h _ (h₁.sameStart hrest)
  obtain _ | ⟨t, front⟩ := front
  · -- the statement took a token, so the lists differ behind it only
    rw [List.nil_append] at hfront
    rw [← hfront, List.length_cons] at hless
    omega
  · obtain ⟨rfl, rfl⟩ := List.cons.inj hfront
    refine ⟨_, .trans h₁ ⟨first :: front, rfl, rfl⟩, .next hfirst hstatement ?_ hnext⟩
    simp

theorem stalled (hfirst : (inBlock && first.kind = .rightBrace) = false)
    (h : Elsewhere stop' (.statement n) (first :: ts) (first :: ts) i₁)
    (hnext : Elsewhere stop' (.statements inBlock ns) ts rest i₂) :
    Elsewhere stop' (.statements inBlock (n :: ns)) (first :: ts) rest (i₁ ++ i₂) := by
  intro rest' hrest
  obtain ⟨ts', hts, hnext⟩ := hnext _ hrest
  obtain ⟨us, ⟨front, hfront, rfl⟩, hstatement⟩ := h _ (.cons first ts ts')
  obtain rfl : front = [] := by simpa using hfront
  exact ⟨_, .cons first hts, .stalled hfirst hstatement hnext⟩

end Elsewhere

theorem Reads.elsewhere (stop' : Token) {f : Finding} {ts rest : List Token}
    {issues : List Diagnostic} (h : Reads stop f ts rest issues) :
    Elsewhere stop' f ts rest issues := by
  induction h with
  | declare hword hname hmark _ ih =>
    intro rest' hrest
    obtain ⟨ts₂', h₂, hvalue⟩ := ih _ hrest
    obtain ⟨ts₁', h₁, hmark⟩ := hmark.elsewhere stop' (h₂.sameStart hrest)
    obtain ⟨ts', h, hname⟩ := hname.elsewhere stop' (h₁.sameStart (h₂.sameStart hrest))
    exact ⟨_, .cons _ (h₂.trans (h₁.trans h)), .declare hword hname hmark hvalue⟩
  | logical hword _ ih =>
    intro rest' hrest
    obtain ⟨ts', hts, h⟩ := ih _ hrest
    rw [(hts.sameStart hrest).lookahead_eq stop stop'] at hword
    exact ⟨ts', hts, .logical hword h⟩
  | negation hword _ ih =>
    intro rest' hrest
    obtain ⟨ts', hts, h⟩ := ih _ hrest
    exact ⟨_, .cons _ hts, .negation hword h⟩
  | operands ht hword _ _ ihleft ihchain =>
    intro rest' hrest
    obtain ⟨ts₁', h₁, hchain⟩ := ihchain _ hrest
    obtain ⟨ts', h, hleft⟩ := ihleft _ (h₁.sameStart hrest)
    have hts := h₁.trans h
    rw [(hts.sameStart hrest).lookahead_eq stop stop'] at hword
    exact ⟨ts', hts, .operands ht hword hleft hchain⟩
  | last hop =>
    intro rest' hrest
    rw [hrest.lookahead_eq stop stop'] at hop
    exact ⟨rest', .refl _ _, .last hop⟩
  | join hop _ _ ihright ihchain =>
    intro rest' hrest
    obtain ⟨ts₁', h₁, hchain⟩ := ihchain _ hrest
    obtain ⟨ts', h, hright⟩ := ihright _ (h₁.sameStart hrest)
    exact ⟨_, .cons _ (h₁.trans h), .join hop hright hchain⟩
  | group hopen _ hclose ih =>
    intro rest' hrest
    obtain ⟨ts₁', h₁, hclose⟩ := hclose.elsewhere stop' hrest
    obtain ⟨ts', h, hinner⟩ := ih _ (h₁.sameStart hrest)
    exact ⟨_, .cons _ (h₁.trans h), .group hopen hinner hclose⟩
  | access hname => exact fun _ _ => ⟨_, .cons _ (.refl _ _), .access hname⟩
  | literal htoken => exact fun _ _ => ⟨_, .cons _ (.refl _ _), .literal htoken⟩
  | signed hsign _ ih =>
    intro rest' hrest
    obtain ⟨ts', hts, h⟩ := ih _ hrest
    exact ⟨_, .cons _ hts, .signed hsign h⟩
  | block hword hopen _ hclose hbrace _ hlast ihcondition ihbody =>
    exact .block hword hopen ihcondition hclose hbrace ihbody hlast
  | missing h => exact .missing h
  | breakLoop hword hmark =>
    intro rest' hrest
    obtain ⟨ts', hts, hmark⟩ := hmark.elsewhere stop' hrest
    exact ⟨_, .cons _ hts, .breakLoop hword hmark⟩
  | continueLoop hword hmark =>
    intro rest' hrest
    obtain ⟨ts', hts, hmark⟩ := hmark.elsewhere stop' hrest
    exact ⟨_, .cons _ hts, .continueLoop hword hmark⟩
  | closed hbreak hcontinue _ hn hmark ih =>
    intro rest' hrest
    obtain ⟨ts₁', h₁, hmark⟩ := hmark.elsewhere stop' hrest
    obtain ⟨ts', h, hwhole⟩ := ih _ (h₁.sameStart hrest)
    have hts := h₁.trans h
    rw [(hts.sameStart hrest).lookahead_eq stop stop'] at hbreak hcontinue
    exact ⟨ts', hts, .closed hbreak hcontinue hwhole hn hmark⟩
  | @closedBlock n mark ts rest i hbreak hcontinue _ hn hmark ih =>
    intro rest' hrest
    have hends : SameFront rest rest' (mark :: rest) (mark :: rest') := .cons mark (.refl _ _)
    obtain ⟨ts', h, hwhole⟩ := ih _ (hends.sameStart hrest)
    have hts := hends.trans h
    rw [(hts.sameStart hrest).lookahead_eq stop stop'] at hbreak hcontinue
    exact ⟨ts', hts, .closedBlock hbreak hcontinue hwhole hn hmark⟩
  | bareBlock hbreak hcontinue _ hn hmark ih =>
    intro rest' hrest
    obtain ⟨ts', hts, hwhole⟩ := ih _ hrest
    rw [(hts.sameStart hrest).lookahead_eq stop stop'] at hbreak hcontinue
    rw [hrest.lookahead_eq stop stop'] at hmark
    exact ⟨ts', hts, .bareBlock hbreak hcontinue hwhole hn hmark⟩
  | finished =>
    intro rest' hrest
    obtain ⟨_, _, _, hnil, -⟩ := hrest
    cases hnil
  | closing hbrace =>
    intro rest' hrest
    obtain ⟨brace, _, _, hcons, rfl⟩ := hrest
    obtain ⟨rfl, rfl⟩ := List.cons.inj hcons
    exact ⟨_, .refl _ _, .closing hbrace⟩
  | next hfirst _ hless _ ih ihnext => exact .next hfirst ih hless ihnext
  | stalled hfirst _ _ ih ihnext => exact .stalled hfirst ih ihnext

def SparesMarks (ts rest : List Token) : Prop :=
  ∃ taken, ts = taken ++ rest ∧ ∀ t ∈ taken, t.kind ≠ .semicolon

namespace SparesMarks
variable {ts ts₁ rest : List Token}

theorem refl (ts : List Token) : SparesMarks ts ts :=
  ⟨[], rfl, fun _ ht => absurd ht List.not_mem_nil⟩

theorem cons {t : Token} (ht : t.kind ≠ .semicolon) (h : SparesMarks ts rest) :
    SparesMarks (t :: ts) rest := by
  obtain ⟨taken, rfl, htaken⟩ := h
  exact ⟨t :: taken, rfl, List.forall_mem_cons.2 ⟨ht, htaken⟩⟩

theorem trans (h : SparesMarks ts ts₁) (hrest : SparesMarks ts₁ rest) : SparesMarks ts rest := by
  obtain ⟨front, rfl, hfront⟩ := h
  obtain ⟨taken, rfl, htaken⟩ := hrest
  exact ⟨front ++ taken, (List.append_assoc ..).symm, List.forall_mem_append.2 ⟨hfront, htaken⟩⟩

end SparesMarks

theorem Takes.sparesMarks {e : Expectation} {ts rest : List Token} {token : Token}
    {issues : List Diagnostic} (h : Takes stop e ts token rest issues) (he : e.kind ≠ .semicolon) :
    SparesMarks ts rest := by
  cases h with
  | met h => exact .cons (h ▸ he) (.refl _)
  | unmet => exact .refl _

theorem sparesMarks_missingExpression (ts : List Token) :
    SparesMarks ts (ts.drop (missingExpression stop ts).used) := by
  rcases drop_missingExpression stop ts with ⟨hdrop, -⟩ | ⟨hdrop, hkind⟩
  · rw [hdrop]
    exact .refl _
  · rw [hdrop]
    obtain _ | ⟨first, ts⟩ := ts
    · exact .refl _
    · refine .cons (fun hmark => hkind ?_) (.refl _)
      simp [hmark]

def Finding.isExpression : Finding → Bool
  | expression _ => true
  | tier _ _ => true
  | chain _ _ _ => true
  | _ => false

theorem Reads.sparesMarks {f : Finding} {ts rest : List Token} {issues : List Diagnostic}
    (h : Reads stop f ts rest issues) (hf : f.isExpression = true)
    (hblocks : ∀ t ∈ ts, t.block? = none) : SparesMarks ts rest := by
  have of_suffix {us vs : List Token} (h : vs <:+ us) (hus : ∀ t ∈ us, t.block? = none) :
      ∀ t ∈ vs, t.block? = none := fun t ht => hus t (h.subset ht)
  induction h with
  | @declare word name mark value ts ts₁ ts₂ rest i₁ i₂ i₃ hword hname hmark _ ih =>
    have hafter := (hmark.isSuffix.trans hname.isSuffix).trans (List.suffix_cons word ts)
    refine .cons (by simp [Token.kind_of_keyword? hword]) ?_
    exact ((hname.sparesMarks (by decide)).trans (hmark.sparesMarks (by decide))).trans
      (ih rfl (of_suffix hafter hblocks))
  | logical _ _ ih => exact ih rfl hblocks
  | negation hword _ ih =>
    refine .cons (by simp [Token.kind_of_keyword? hword]) (ih rfl ?_)
    exact of_suffix (List.suffix_cons _ _) hblocks
  | operands _ _ hleft _ ihleft ihchain =>
    exact (ihleft rfl hblocks).trans (ihchain rfl (of_suffix hleft.isSuffix hblocks))
  | last => exact .refl _
  | join hop hright _ ihright ihchain =>
    have hjoins := Tier.isSome_operator?_iff.1 (Option.isSome_iff_exists.2 ⟨_, hop⟩)
    have hkind := Tier.kind_of_joins hjoins
    have hafter := of_suffix (List.suffix_cons _ _) hblocks
    refine .cons (fun hmark => ?_) ((ihright rfl hafter).trans ?_)
    · simp [hmark, TokenKind.operators] at hkind
    · exact ihchain rfl (of_suffix hright.isSuffix hafter)
  | group hopen h hclose ih =>
    refine .cons (by simp [hopen]) ((ih rfl ?_).trans (hclose.sparesMarks (by decide)))
    exact of_suffix (List.suffix_cons _ _) hblocks
  | access hkind | literal hkind => exact .cons (by simp [hkind]) (.refl _)
  | signed hsign _ ih =>
    refine .cons (fun hmark => ?_) (ih rfl (of_suffix (List.suffix_cons _ _) hblocks))
    simp [UnaryOp.ofSign?, hmark] at hsign
  | block hword =>
    -- a block would take the semicolons of the statements in it
    rw [hblocks _ List.mem_cons_self] at hword
    cases hword
  | missing => exact sparesMarks_missingExpression _
  | _ => cases hf

theorem Reads.ne_nil_of_getLast? {n : Node} {ts rest : List Token} {issues : List Diagnostic}
    (h : Reads stop (.expression n) ts rest issues) {mark : Token} (hlast : ts.getLast? = some mark)
    (hkind : mark.kind = .semicolon)
    (hsound : n.isBlock = true ∧ issues = [] ∨ ∀ t ∈ ts, t.block? = none) : rest ≠ [] := by
  rintro rfl
  rcases hsound with ⟨hn, hclean⟩ | hblocks
  · obtain ⟨xs, rfl, hspelled, -⟩ := h.accounts hclean
    obtain ⟨brace, hbrace, hclose⟩ := hspelled.getLast?_of_isBlock hn
    rw [List.append_nil, hbrace] at hlast
    obtain rfl := Option.some.inj hlast
    exact nomatch hclose.symm.trans hkind
  · obtain ⟨taken, rfl, htaken⟩ := h.sparesMarks rfl hblocks
    rw [List.append_nil] at hlast
    exact htaken mark (List.mem_of_getLast? hlast) hkind

theorem Takes.append {e : Expectation} {word token mark : Token} {ts : List Token}
    {issues : List Diagnostic} (h : Takes stop e ts token [] issues)
    (hlast : (word :: ts).getLast? = some mark) (hword : word.kind ≠ mark.kind) (us : List Token) :
    Takes stop' e (ts ++ us) token us issues := by
  cases h with
  | met h => exact .met h
  | unmet => exact absurd (congrArg Token.kind (Option.some.inj hlast)) hword

theorem Reads.statement_append {n : Node} {ts : List Token} {issues : List Diagnostic}
    (h : Reads stop (.statement n) ts [] issues) {mark : Token} (hlast : ts.getLast? = some mark)
    (hkind : mark.kind = .semicolon) (hsound : issues = [] ∨ ∀ t ∈ ts, t.block? = none)
    (us : List Token) : Reads stop' (.statement n) (ts ++ us) us issues := by
  have hword {word : Token} {k : Keyword} (h : word.keyword? = some k) : word.kind ≠ mark.kind := by
    rw [Token.kind_of_keyword? h, hkind]
    nofun
  -- an expression in front of the semicolon is read the same way, and so is the word it starts with
  have hfront {token : Token} {i : List Diagnostic}
      (h : Reads stop (.expression n) ts [token] i) :
      Reads stop' (.expression n) (ts ++ us) (token :: us) i ∧
        lookahead stop ts = lookahead stop' (ts ++ us) := by
    have hstart : SameStart [token] ([token] ++ us) := .cons token [] us
    obtain ⟨ts', hts, hread⟩ := h.elsewhere stop' _ hstart
    obtain rfl := hts.eq_append
    exact ⟨hread, (hts.sameStart hstart).lookahead_eq stop stop'⟩
  cases h with
  | breakLoop h hmark => exact .breakLoop h (hmark.append hlast (hword h) us)
  | continueLoop h hmark => exact .continueLoop h (hmark.append hlast (hword h) us)
  | closed hbreak hcontinue h hn hmark =>
    cases hmark with
    | met hmark =>
      obtain ⟨hread, hstart⟩ := hfront h
      rw [hstart] at hbreak hcontinue
      exact .closed hbreak hcontinue hread hn (.met hmark)
    | unmet =>
      refine absurd rfl (h.ne_nil_of_getLast? hlast hkind (.inr (hsound.resolve_left ?_)))
      exact List.append_ne_nil_of_right_ne_nil _ (List.cons_ne_nil _ _)
  | closedBlock hbreak hcontinue h hn hmark =>
    obtain ⟨hread, hstart⟩ := hfront h
    rw [hstart] at hbreak hcontinue
    exact .closedBlock hbreak hcontinue hread hn hmark
  | bareBlock _ _ h hn =>
    exact absurd rfl (h.ne_nil_of_getLast? hlast hkind (hsound.imp_left fun h => ⟨hn, h⟩))

theorem Reads.statements_append {ns ms : List Node} {ts us end₁ end₂ : List Token}
    {is js : List Diagnostic} (h : Reads stop (.statements false ns) ts end₁ is)
    (hlast : ∀ mark ∈ ts.getLast?, mark.kind = .semicolon)
    (hsound : is = [] ∨ ∀ t ∈ ts, t.block? = none)
    (hus : Reads stop' (.statements false ms) us end₂ js) :
    Reads stop' (.statements false (ns ++ ms)) (ts ++ us) end₂ (is ++ js) := by
  generalize hf : Finding.statements false ns = f at h
  induction h generalizing ns with
  | finished =>
    cases hf
    exact hus
  | closing => cases hf
  | @next _ n ns first ts ts₁ rest i₁ i₂ hfirst h hless hnext _ ihnext =>
    cases hf
    have hsuffix := h.isSuffix
    have hstatement : Reads stop' (.statement n) (first :: ts ++ us) (ts₁ ++ us) i₁ := by
      -- only the last statement is read up to the end, and it ends with a semicolon
      by_cases hts₁ : ts₁ = []
      · subst hts₁
        have hsound := hsound.imp_left fun h => (List.append_eq_nil_iff.1 h).1
        have hmark := List.getLast?_eq_some_getLast (List.cons_ne_nil first ts)
        exact h.statement_append hmark (hlast _ hmark) hsound us
      · obtain ⟨ts', hts, hread⟩ := h.elsewhere stop' _ (.append hts₁ us)
        rwa [← hts.eq_append]
    have hbehind : Reads stop' (.statements false (ns ++ ms)) (ts₁ ++ us) end₂ (i₂ ++ js) := by
      refine ihnext (fun mark hmark => hlast mark ?_) ?_ rfl
      · obtain ⟨taken, htaken⟩ := hsuffix
        rw [← htaken, List.getLast?_append, hmark]
        rfl
      · exact hsound.imp (fun h => (List.append_eq_nil_iff.1 h).2)
          fun h t ht => h t (hsuffix.subset ht)
    rw [List.append_assoc]
    exact .next hfirst hstatement (by simpa using hless) hbehind
  | @stalled _ n ns first ts rest i₁ i₂ hfirst h hnext _ ihnext =>
    cases hf
    obtain ⟨ts', hts, hread⟩ := h.elsewhere stop' _ (.append (List.cons_ne_nil _ _) us)
    obtain rfl := hts.eq_append
    have hbehind : Reads stop' (.statements false (ns ++ ms)) (ts ++ us) end₂ (i₂ ++ js) := by
      refine ihnext (fun mark hmark => hlast mark ?_) ?_ rfl
      · rw [List.getLast?_cons, hmark]
        rfl
      · exact hsound.imp (fun h => (List.append_eq_nil_iff.1 h).2)
          fun h t ht => h t (List.mem_cons_of_mem _ ht)
    rw [List.append_assoc]
    exact .stalled hfirst hread hbehind
  | _ => cases hf

end Grammar

namespace Tokens

theorem proper_append {ts : List Token} (hts : ∀ t ∈ ts, t.kind ≠ .endOfInput) (us : List Token) :
    proper (ts ++ us) = ts ++ proper us :=
  List.takeWhile_append_of_pos (by simpa [isProper] using hts)

theorem stop_append_of_ne_nil {ts us : List Token} (hts : ∀ t ∈ ts, t.kind ≠ .endOfInput)
    (hus : us ≠ []) : stop (ts ++ us) = stop us := by
  have hfinal : final (ts ++ us) = final us := by
    rw [final, final, List.getLast?_append, List.getLast?_eq_some_getLast hus]
    rfl
  rw [stop, stop, List.dropWhile_append_of_pos (by simpa [isProper] using hts), hfinal]

end Tokens

theorem Token.block?_eq_none {t : Token} (hif : t.keyword? ≠ some .ifWord)
    (hwhile : t.keyword? ≠ some .whileWord) : t.block? = none := by
  unfold block?
  split
  · next h => exact absurd h hif
  · next h => exact absurd h hwhile
  · rfl

/-- Behind a semicolon reading starts afresh: tokens that end with one, and that either are read
without an issue or hold no word that opens a block, give their own statements and issues, and the
tokens behind them give theirs. -/
theorem parse_behind_semicolon {ts us : List Token} {mark : Token}
    (hts : ∀ t ∈ ts, t.kind ≠ .endOfInput) (hlast : ts.getLast? = some mark)
    (hmark : mark.kind = .semicolon)
    (hsound : (parse ts []).diagnostics = [] ∨
      ∀ t ∈ ts, t.keyword? ≠ some .ifWord ∧ t.keyword? ≠ some .whileWord)
    (hus : us ≠ []) (ds : List Diagnostic) :
    parse (ts ++ us) ds =
      ⟨(parse ts []).program ++ (parse us []).program,
        ds ++ ((parse ts []).diagnostics ++ (parse us []).diagnostics)⟩ := by
  have hne : ts ≠ [] := by
    rintro rfl
    cases hlast
  have hproper : Tokens.proper ts = ts := by
    simpa [Tokens.proper] using Tokens.proper_append hts []
  have hfirst := reads_proper ts
  have hsecond := reads_proper us
  rw [parse_eq hne, List.nil_append] at hsound
  rw [parse_eq hne, parse_eq hus, List.nil_append, List.nil_append,
    parse_eq_iff (List.append_ne_nil_of_left_ne_nil hne us), Tokens.proper_append hts,
    Tokens.stop_append_of_ne_nil hts hus]
  simp only [hproper] at hfirst hsound ⊢
  refine ⟨_, hfirst.statements_append ?_ ?_ hsecond⟩
  · rw [hlast]
    rintro _ ⟨⟩
    exact hmark
  · exact hsound.imp_right fun h t ht => Token.block?_eq_none (h t ht).1 (h t ht).2

theorem parse_behind_stray_bracket :
    let close : Token := ⟨.rightParen, ")", none, .nowhere⟩
    let star : Token := ⟨.star, "*", none, .nowhere⟩
    let mark : Token := ⟨.semicolon, ";", none, .nowhere⟩
    let name : Token := ⟨.identifier, "x", none, .nowhere⟩
    let stop := Tokens.stop [name]
    parse [close, star, mark] [] =
        ⟨[.binary (.missing .nowhere) .multiply (.missing .nowhere) .nowhere],
          [MissingExpression.diagnostic close, MissingExpression.diagnostic mark]⟩ ∧
      parse [name] [] = ⟨[.access name], [Expectation.endOfStatement.diagnostic stop]⟩ ∧
      parse ([close, star, mark] ++ [name]) [] =
        ⟨[.binary (.missing .nowhere) .multiply (.missing .nowhere) .nowhere, .access name],
          [MissingExpression.diagnostic close, MissingExpression.diagnostic mark,
            Expectation.endOfStatement.diagnostic stop]⟩ := by
  intro close star mark name stop
  have hfirst : parse [close, star, mark] [] =
      ⟨[.binary (.missing .nowhere) .multiply (.missing .nowhere) .nowhere],
        [MissingExpression.diagnostic close, MissingExpression.diagnostic mark]⟩ := by cbv
  have hsecond : parse [name] [] =
      ⟨[.access name], [Expectation.endOfStatement.diagnostic stop]⟩ := by cbv
  have hwords : ∀ t ∈ [close, star, mark],
      t.keyword? ≠ some .ifWord ∧ t.keyword? ≠ some .whileWord := by decide
  have hboth : parse ([close, star, mark] ++ [name]) [] = _ :=
    parse_behind_semicolon (by decide) rfl rfl (.inr hwords) (List.cons_ne_nil _ _) []
  rw [hfirst, hsecond] at hboth
  exact ⟨hfirst, hsecond, hboth⟩

end Scriptlet
