import Scriptlet.Proofs.Syntax.Graph

/-! Every list of tokens is read by each rule of the relation, so the relation is exactly the graph
of the reading functions. Which rules apply at the first token is told for each kind of finding, as
long as all shorter lists are read. -/

namespace Scriptlet
namespace Grammar
variable {stop : Token}

theorem Expectation.kind_ne_endOfInput (e : Expectation) : e.kind ≠ .endOfInput := by
  cases e <;> simp [Expectation.kind]

structure Readable (stop : Token) (ts : List Token) : Prop where
  expression : ∃ n rest i, Reads stop (.expression n) ts rest i
  tier (t : Tier) : ∃ n rest i, Reads stop (.tier t n) ts rest i
  chain (t : Tier) (left : Node) : ∃ n rest i, Reads stop (.chain t left n) ts rest i
  statement : ∃ n rest i, Reads stop (.statement n) ts rest i
  statements (inBlock : Bool) : ∃ ns rest i, Reads stop (.statements inBlock ns) ts rest i

theorem exists_cons {ts : List Token} (h : lookahead stop ts ≠ stop) :
    ∃ first rest, ts = first :: rest := by
  cases ts with
  | nil => exact absurd rfl h
  | cons first rest => exact ⟨first, rest, rfl⟩

section
variable (hstop : stop.kind = .endOfInput)
include hstop

theorem Reads.length_le {f : Finding} {ts rest : List Token} {i : List Diagnostic}
    (h : Reads stop f ts rest i) : rest.length ≤ ts.length :=
  (h.agrees hstop).isSuffix.length_le

theorem exists_cons_of_kind {ts : List Token} {k : TokenKind} (hk : k ≠ .endOfInput)
    (h : (lookahead stop ts).kind = k) : ∃ first rest, ts = first :: rest :=
  exists_cons fun heq => hk (h.symm.trans (heq ▸ hstop))

theorem exists_cons_of_keyword? {ts : List Token} {k : Keyword}
    (h : (lookahead stop ts).keyword? = some k) : ∃ first rest, ts = first :: rest :=
  exists_cons_of_kind hstop (by decide) (Token.kind_of_keyword? h)

theorem not_startsPrimary_stop : ¬ stop.startsPrimary := by
  simp [Token.startsPrimary, UnaryOp.ofSign?, Token.block?, hstop, keyword?_stop hstop]

theorem exists_takes (e : Expectation) (ts : List Token) :
    ∃ token rest i, Takes stop e ts token rest i := by
  by_cases h : (lookahead stop ts).kind = e.kind
  · obtain ⟨first, rest, rfl⟩ := exists_cons_of_kind hstop (Expectation.kind_ne_endOfInput e) h
    exact ⟨_, _, _, .met h⟩
  · exact ⟨_, _, _, .unmet h⟩

variable {m : Nat} (hshorter : ∀ us : List Token, us.length < m → Readable stop us)
  {ts : List Token}
include hshorter

theorem exists_chain (hle : ts.length ≤ m) (t : Tier) (left : Node) :
    ∃ n rest i, Reads stop (.chain t left n) ts rest i := by
  cases hop : t.operator? (lookahead stop ts) with
  | none => exact ⟨_, _, _, .last hop⟩
  | some op =>
    have hne : lookahead stop ts ≠ stop := fun heq => by
      rw [heq, operator?_stop hstop] at hop
      cases hop
    obtain ⟨token, us, rfl⟩ := exists_cons hne
    obtain ⟨right, us₁, _, hright⟩ := (hshorter us hle).tier t.operand
    have hless : us₁.length < m := Nat.lt_of_le_of_lt (hright.length_le hstop) hle
    obtain ⟨_, _, _, hchain⟩ := (hshorter us₁ hless).chain t _
    exact ⟨_, _, _, .join hop hright hchain⟩

theorem exists_group {opening : Token} (hopen : opening.kind = .leftParen) (hless : ts.length < m) :
    ∃ n rest i, Reads stop (.tier .primary n) (opening :: ts) rest i := by
  obtain ⟨_, ts₁, _, h⟩ := (hshorter ts hless).expression
  obtain ⟨_, _, _, hclose⟩ := exists_takes hstop .closeGroup ts₁
  exact ⟨_, _, _, .group hopen h hclose⟩

theorem exists_block {word : Token} {make} (hword : word.block? = some make)
    (hless : ts.length < m) : ∃ n rest i, Reads stop (.tier .primary n) (word :: ts) rest i := by
  obtain ⟨_, ts₁, _, hopen⟩ := exists_takes hstop (.openCondition word.text) ts
  have hless₁ := Nat.lt_of_le_of_lt hopen.isSuffix.length_le hless
  obtain ⟨_, ts₂, _, hcondition⟩ := (hshorter ts₁ hless₁).expression
  have hless₂ := Nat.lt_of_le_of_lt (hcondition.length_le hstop) hless₁
  obtain ⟨_, ts₃, _, hclose⟩ := exists_takes hstop (.closeCondition word.text) ts₂
  have hless₃ := Nat.lt_of_le_of_lt hclose.isSuffix.length_le hless₂
  obtain ⟨_, ts₄, _, hbrace⟩ := exists_takes hstop (.openBody word.text) ts₃
  have hless₄ := Nat.lt_of_le_of_lt hbrace.isSuffix.length_le hless₃
  obtain ⟨_, ts₅, _, hbody⟩ := (hshorter ts₄ hless₄).statements true
  obtain ⟨_, _, _, hlast⟩ := exists_takes hstop .closeBody ts₅
  exact ⟨_, _, _, .block hword hopen hcondition hclose hbrace hbody hlast⟩

variable (hle : ts.length ≤ m)
include hle

theorem exists_primary : ∃ n rest i, Reads stop (.tier .primary n) ts rest i := by
  by_cases h : (lookahead stop ts).startsPrimary
  · have hne : lookahead stop ts ≠ stop := fun heq => not_startsPrimary_stop hstop (heq ▸ h)
    obtain ⟨first, us, rfl⟩ := exists_cons hne
    rcases h with hopen | hname | htoken | hsign | hword
    · exact exists_group hstop hshorter hopen hle
    · exact ⟨_, _, _, .access hname⟩
    · exact ⟨_, _, _, .literal htoken⟩
    · obtain ⟨op, hsign⟩ := Option.isSome_iff_exists.1 hsign
      obtain ⟨_, _, _, h⟩ := (hshorter us hle).tier .factor
      exact ⟨_, _, _, .signed hsign h⟩
    · obtain ⟨make, hword⟩ := Option.isSome_iff_exists.1 hword
      exact exists_block hstop hshorter hword hle
  · exact ⟨_, _, _, .missing h⟩

theorem exists_tier (t : Tier) : ∃ n rest i, Reads stop (.tier t n) ts rest i := by
  induction hheight : t.height using Nat.strongRecOn generalizing t with
  | ind height ih =>
    by_cases ht : t = .primary
    · subst ht
      exact exists_primary hstop hshorter hle
    by_cases hword : t = .comparison ∧ (lookahead stop ts).keyword? = some .notWord
    · obtain ⟨rfl, hword⟩ := hword
      obtain ⟨word, us, rfl⟩ := exists_cons_of_keyword? hstop hword
      obtain ⟨_, _, _, h⟩ := (hshorter us hle).tier .comparison
      exact ⟨_, _, _, .negation hword h⟩
    · obtain ⟨left, ts₁, _, hleft⟩ :=
        ih t.operand.height (hheight ▸ Tier.height_operand_lt ht) t.operand rfl
      obtain ⟨_, _, _, hchain⟩ :=
        exists_chain hstop hshorter (Nat.le_trans (hleft.length_le hstop) hle) t left
      exact ⟨_, _, _, .operands ht hword hleft hchain⟩

theorem exists_expression : ∃ n rest i, Reads stop (.expression n) ts rest i := by
  by_cases hword : (lookahead stop ts).keyword? = some .declare
  · obtain ⟨word, us, rfl⟩ := exists_cons_of_keyword? hstop hword
    rw [List.length_cons] at hle
    obtain ⟨_, us₁, _, hname⟩ := exists_takes hstop .declaredName us
    have hless₁ := hname.isSuffix.length_le
    obtain ⟨_, us₂, _, hmark⟩ := exists_takes hstop .declaredEqual us₁
    have hless₂ := hmark.isSuffix.length_le
    obtain ⟨_, _, _, hvalue⟩ := (hshorter us₂ (by omega)).expression
    exact ⟨_, _, _, .declare hword hname hmark hvalue⟩
  · obtain ⟨n, _, _, h⟩ := exists_tier hstop hshorter hle .logical
    exact ⟨n, _, _, .logical hword h⟩

theorem exists_closed (hbreak : (lookahead stop ts).keyword? ≠ some .breakWord)
    (hcontinue : (lookahead stop ts).keyword? ≠ some .continueWord) :
    ∃ n rest i, Reads stop (.statement n) ts rest i := by
  obtain ⟨n, ts₁, _, h⟩ := exists_expression hstop hshorter hle
  cases hn : n.isBlock with
  | false =>
    obtain ⟨_, _, _, hmark⟩ := exists_takes hstop .endOfStatement ts₁
    exact ⟨n, _, _, .closed hbreak hcontinue h hn hmark⟩
  | true =>
    by_cases hmark : (lookahead stop ts₁).kind = .semicolon
    · obtain ⟨mark, us, rfl⟩ := exists_cons_of_kind hstop (by decide) hmark
      exact ⟨n, _, _, .closedBlock hbreak hcontinue h hn hmark⟩
    · exact ⟨n, _, _, .bareBlock hbreak hcontinue h hn hmark⟩

theorem exists_statement : ∃ n rest i, Reads stop (.statement n) ts rest i := by
  by_cases hbreak : (lookahead stop ts).keyword? = some .breakWord
  · obtain ⟨word, us, rfl⟩ := exists_cons_of_keyword? hstop hbreak
    obtain ⟨_, _, _, hmark⟩ := exists_takes hstop .endOfBreak us
    exact ⟨_, _, _, .breakLoop hbreak hmark⟩
  by_cases hcontinue : (lookahead stop ts).keyword? = some .continueWord
  · obtain ⟨word, us, rfl⟩ := exists_cons_of_keyword? hstop hcontinue
    obtain ⟨_, _, _, hmark⟩ := exists_takes hstop .endOfContinue us
    exact ⟨_, _, _, .continueLoop hcontinue hmark⟩
  exact exists_closed hstop hshorter hle hbreak hcontinue

theorem exists_statements (inBlock : Bool) :
    ∃ ns rest i, Reads stop (.statements inBlock ns) ts rest i := by
  rcases ts with _ | ⟨first, us⟩
  · exact ⟨[], _, _, .finished⟩
  cases hfirst : (inBlock && first.kind = .rightBrace) with
  | true =>
    obtain ⟨rfl, hbrace⟩ : inBlock = true ∧ first.kind = .rightBrace := by simpa using hfirst
    exact ⟨[], _, _, .closing hbrace⟩
  | false =>
    obtain ⟨n, ts₁, _, h⟩ := exists_statement hstop hshorter hle
    rw [List.length_cons] at hle
    by_cases hless : ts₁.length ≤ us.length
    · obtain ⟨_, _, _, hnext⟩ := (hshorter ts₁ (by omega)).statements inBlock
      exact ⟨_, _, _, .next hfirst h hless hnext⟩
    · -- nothing was taken, and the next statement is looked for one token later
      obtain rfl : ts₁ = first :: us :=
        (h.agrees hstop).isSuffix.eq_of_length_le (Nat.lt_of_not_le hless)
      obtain ⟨_, _, _, hnext⟩ := (hshorter us hle).statements inBlock
      exact ⟨_, _, _, .stalled hfirst h hnext⟩

end

theorem readable (hstop : stop.kind = .endOfInput) (ts : List Token) : Readable stop ts := by
  induction hlength : ts.length using Nat.strongRecOn generalizing ts with
  | ind m ih =>
    have hshorter (us : List Token) (hless : us.length < m) : Readable stop us := ih _ hless us rfl
    have hle : ts.length ≤ m := Nat.le_of_eq hlength
    exact
      { expression := exists_expression hstop hshorter hle
        tier := exists_tier hstop hshorter hle
        chain := exists_chain hstop hshorter hle
        statement := exists_statement hstop hshorter hle
        statements := exists_statements hstop hshorter hle }

theorem reads_iff (hstop : stop.kind = .endOfInput) {f : Finding} {ts rest : List Token}
    {issues : List Diagnostic} : Reads stop f ts rest issues ↔ Agrees stop f ts rest issues := by
  refine ⟨Reads.agrees hstop, fun h => ?_⟩
  have hts := readable hstop ts
  cases f with
  | expression n =>
    obtain ⟨_, _, _, hreads⟩ := hts.expression
    obtain ⟨rfl, rfl, rfl⟩ := h.unique (hreads.agrees hstop)
    exact hreads
  | tier t n =>
    obtain ⟨_, _, _, hreads⟩ := hts.tier t
    obtain ⟨rfl, rfl, rfl⟩ := h.unique (hreads.agrees hstop)
    exact hreads
  | chain t left n =>
    obtain ⟨_, _, _, hreads⟩ := hts.chain t left
    obtain ⟨rfl, rfl, rfl⟩ := h.unique (hreads.agrees hstop)
    exact hreads
  | statement n =>
    obtain ⟨_, _, _, hreads⟩ := hts.statement
    obtain ⟨rfl, rfl, rfl⟩ := h.unique (hreads.agrees hstop)
    exact hreads
  | statements inBlock ns =>
    obtain ⟨_, _, _, hreads⟩ := hts.statements inBlock
    obtain ⟨rfl, rfl, rfl⟩ := h.unique (hreads.agrees hstop)
    exact hreads

theorem reads_statements (hstop : stop.kind = .endOfInput) (inBlock : Bool) (ts : List Token) :
    let reading := statements stop inBlock ts
    Reads stop (.statements inBlock reading.value) ts (ts.drop reading.used) reading.issues := by
  obtain ⟨_, _, _, h⟩ := (readable hstop ts).statements inBlock
  exact (reads_iff hstop).2 ⟨rfl, ⟨(h.agrees hstop).leaves.le, rfl⟩, rfl⟩

end Grammar

namespace Tokens

theorem proper_append_stop {ts : List Token} {stop : Token} (hts : ∀ t ∈ ts, isProper t)
    (hstop : stop.kind = .endOfInput) : proper (ts ++ [stop]) = ts := by
  rw [proper, List.takeWhile_append_of_pos hts]
  simp [isProper, hstop]

theorem stop_append {ts : List Token} {mark : Token} (hts : ∀ t ∈ ts, isProper t)
    (hmark : mark.kind = .endOfInput) (tail : List Token) : stop (ts ++ mark :: tail) = mark := by
  have hend : ¬ isProper mark = true := by simp [isProper, hmark]
  rw [stop, List.dropWhile_append_of_pos hts, List.dropWhile_cons_of_neg hend, List.headD_cons]

theorem kind_final (ts : List Token) : (final ts).kind = .endOfInput := by
  unfold final
  split
  · rfl
  · split
    · assumption
    · rfl

theorem kind_stop (ts : List Token) : (stop ts).kind = .endOfInput := by
  unfold stop
  cases h : ts.dropWhile isProper with
  | nil => exact kind_final ts
  | cons t rest =>
    have ht : ¬ isProper t := by
      have hne : ts.dropWhile isProper ≠ [] := by simp [h]
      simpa [h] using List.head_dropWhile_not isProper hne
    simpa [isProper] using ht

end Tokens

theorem reads_proper (ts : List Token) :
    let reading := Grammar.statements (Tokens.stop ts) false (Tokens.proper ts)
    Grammar.Reads (Tokens.stop ts) (.statements false reading.value) (Tokens.proper ts)
      ((Tokens.proper ts).drop reading.used) reading.issues :=
  Grammar.reads_statements (Tokens.kind_stop ts) false (Tokens.proper ts)

theorem parse_eq {ts : List Token} (hts : ts ≠ []) (ds : List Diagnostic) :
    parse ts ds =
      ⟨(Grammar.statements (Tokens.stop ts) false (Tokens.proper ts)).value,
        ds ++ (Grammar.statements (Tokens.stop ts) false (Tokens.proper ts)).issues⟩ := by
  obtain ⟨first, rest, rfl⟩ := List.exists_cons_of_ne_nil hts
  rfl

theorem parse_eq_iff {ts : List Token} (hts : ts ≠ []) {p : Program} (ds issues : List Diagnostic) :
    parse ts ds = ⟨p, ds ++ issues⟩ ↔
      ∃ rest,
        Grammar.Reads (Tokens.stop ts) (.statements false p) (Tokens.proper ts) rest issues := by
  rw [parse_eq hts, Parsed.mk.injEq, List.append_cancel_left_eq]
  constructor
  · rintro ⟨rfl, rfl⟩
    exact ⟨_, reads_proper ts⟩
  · rintro ⟨_, hreads⟩
    obtain ⟨hvalue, -, hissues⟩ := hreads.agrees (Tokens.kind_stop ts)
    exact ⟨hvalue, hissues⟩

end Scriptlet
