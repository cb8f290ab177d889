import Scriptlet.Proofs.Syntax.Canonical

/-! Reading and writing are inverse. A canonical tree is spelled by the tokens of its writing,
wherever they stand, and what is read without an issue is canonical and written as it was
read. -/

namespace Scriptlet

namespace Node

def unplaced (n : Node) : Node := n.relocate fun _ => .start ""

theorem unplaced_unary (op : UnaryOp) (operand : Node) (s : Span) :
    (unary op operand s).unplaced = unary op operand.unplaced .nowhere := rfl

theorem unplaced_binary (left : Node) (op : BinaryOp) (right : Node) (s : Span) :
    (binary left op right s).unplaced = binary left.unplaced op right.unplaced .nowhere := rfl

theorem unplaced_group (inner : Node) (s : Span) :
    (group inner s).unplaced = group inner.unplaced .nowhere := rfl

theorem unplaced_declare (name : Token) (value : Node) (s : Span) :
    (declare name value s).unplaced = declare name.unplaced value.unplaced .nowhere := rfl

theorem unplaced_branch (condition : Node) (body : List Node) (s : Span) :
    (branch condition body s).unplaced =
      branch condition.unplaced (body.map unplaced) .nowhere :=
  congrArg (branch _ · _) (relocateAll_eq_map _ body)

theorem unplaced_loop (condition : Node) (body : List Node) (s : Span) :
    (loop condition body s).unplaced = loop condition.unplaced (body.map unplaced) .nowhere :=
  congrArg (loop _ · _) (relocateAll_eq_map _ body)

def write (n : Node) : List Token := n.slots.map Slot.token

theorem write_unary (op : UnaryOp) (operand : Node) (s : Span) :
    (unary op operand s).write = .mark op.symbol :: operand.write := rfl

theorem write_declare (name : Token) (value : Node) (s : Span) :
    (declare name value s).write = .mark "declare" :: name :: .mark "=" :: value.write := rfl

theorem write_binary (left : Node) (op : BinaryOp) (right : Node) (s : Span) :
    (binary left op right s).write = left.write ++ .mark op.symbol :: right.write := by
  simp [write, slots, Slot.mark]

theorem write_group (inner : Node) (s : Span) :
    (group inner s).write = .mark "(" :: (inner.write ++ [.mark ")"]) := by
  simp [write, slots, Slot.mark]

theorem write_branch (condition : Node) (body : List Node) (s : Span) :
    (branch condition body s).write = .mark "if" :: .mark "(" :: (condition.write ++
      .mark ")" :: .mark "\x7b" :: (Program.write body ++ [.mark "\x7d"])) := by
  simp [write, Program.write, slots, Slot.mark]

theorem write_loop (condition : Node) (body : List Node) (s : Span) :
    (loop condition body s).write = .mark "while" :: .mark "(" :: (condition.write ++
      .mark ")" :: .mark "\x7b" :: (Program.write body ++ [.mark "\x7d"])) := by
  simp [write, Program.write, slots, Slot.mark]

end Node

theorem Tier.admits_of_unplaced {t : Tier} {m n : Node} (h : m.unplaced = n.unplaced)
    (hn : t.admits n) : t.admits m := by
  cases t with
  | comparison =>
    rw [admits, ← Node.isNegation_relocate fun _ => .start ""] at hn ⊢
    exact (congrArg Node.isNegation h).trans hn
  | factor | power =>
    rw [admits, ← Node.endsInSign_relocate fun _ => .start ""] at hn ⊢
    exact (congrArg Node.endsInSign h).trans hn
  | _ => trivial

namespace Level

def phrase : Level → Node → Phrase
  | statement, n => .statement n
  | expression, n => .expression n
  | negation, n => .tier .comparison n
  | tier t, n => .tier t n

def written : Level → Node → List Token
  | statement, n => n.write ++ [.mark ";"]
  | _, n => n.write

theorem phrase_level (t : Tier) (n : Node) : t.level.phrase n = .tier t n := by
  cases t <;> rfl

theorem written_expression (n : Node) : expression.written n = n.write := rfl

theorem written_negation (n : Node) : negation.written n = n.write := rfl

theorem written_tier (t : Tier) (n : Node) : (tier t).written n = n.write := rfl

theorem written_level (t : Tier) (n : Node) : t.level.written n = n.write := by
  cases t <;> rfl

/-- Tokens of the form of what is written at the level spell the tree, up to places. -/
def ReadsBack (l : Level) (n : Node) : Prop :=
  ∀ ts : List Token, ts.map Token.form = (l.written n).map Token.form →
    ∃ m, Spelled (l.phrase m) ts ∧ m.unplaced = n.unplaced

end Level

namespace Token

theorem forms_cons {u : Token} {us ts : List Token} (h : ts.map form = (u :: us).map form) :
    ∃ t xs, ts = t :: xs ∧ t.form = u.form ∧ xs.map form = us.map form :=
  List.map_eq_cons_iff.1 h

theorem forms_append {us vs ts : List Token} (h : ts.map form = (us ++ vs).map form) :
    ∃ xs ys, ts = xs ++ ys ∧ xs.map form = us.map form ∧ ys.map form = vs.map form := by
  rw [List.map_append] at h
  exact List.map_eq_append_iff.1 h

theorem forms_single {u : Token} {ts : List Token} (h : ts.map form = [u].map form) :
    ∃ t, ts = [t] ∧ t.form = u.form := by
  obtain ⟨t, xs, rfl, ht, hxs⟩ := forms_cons h
  rw [List.map_nil, List.map_eq_nil_iff] at hxs
  exact ⟨t, by rw [hxs], ht⟩

end Token

theorem Token.block?_of_form {a b : Token} (h : a.form = b.form) : a.block? = b.block? := by
  rw [block?, block?, keyword?_of_form h]

theorem UnaryOp.ofSign?_of_form {t : Token} {op : UnaryOp} (hop : op ≠ .not)
    (h : t.form = (Token.mark op.symbol).form) : ofSign? t = some op := by
  have hkind := Token.kind_of_form h
  unfold ofSign?
  rw [hkind]
  cases op with
  | not => exact absurd rfl hop
  | _ => rfl

theorem Tier.operator?_of_form {t : Token} {op : BinaryOp}
    (h : t.form = (Token.mark op.symbol).form) : op.tier.operator? t = some op := by
  have hop := (BinaryOp.ofToken?_of_form h).trans (BinaryOp.ofToken?_mark op)
  exact operator?_eq_some_iff.2 ⟨hop, rfl⟩

theorem exists_spelled_statements {ns : List Node} (h : ∀ n ∈ ns, Level.statement.ReadsBack n) :
    ∀ ts : List Token, ts.map Token.form = (Program.write ns).map Token.form →
      ∃ ms, Spelled (.statements ms) ts ∧ ms.map Node.unplaced = ns.map Node.unplaced := by
  induction ns with
  | nil =>
    intro ts hts
    obtain rfl : ts = [] := List.map_eq_nil_iff.1 hts
    exact ⟨[], .finished, rfl⟩
  | cons n ns ih =>
    intro ts hts
    have hwrite : Program.write (n :: ns) = Level.statement.written n ++ Program.write ns := by
      simp [Program.write, slotsAll, Level.written, Node.write]
    rw [hwrite] at hts
    obtain ⟨xs, ys, rfl, hxs, hys⟩ := Token.forms_append hts
    obtain ⟨hn, hns⟩ := List.forall_mem_cons.1 h
    obtain ⟨m, hm, hmn⟩ := hn xs hxs
    obtain ⟨ms, hms, hmsns⟩ := ih hns ys hys
    exact ⟨m :: ms, .next hm hms, by rw [List.map_cons, List.map_cons, hmn, hmsns]⟩

namespace Level.ReadsBack
variable {l : Level} {t : Tier} {n left right value condition : Node} {body : List Node}

theorem jump {make : Span → Node} {text : String} {k : Keyword}
    (hspelled : ∀ {word mark : Token}, word.keyword? = some k → mark.kind = .semicolon →
      Spelled (.statement (make word.span)) [word, mark])
    (hwrite : ∀ s, (make s).write = [.mark text]) (htext : (Token.mark text).keyword? = some k)
    (hmake : ∀ s s', (make s).unplaced = (make s').unplaced) (s : Span) :
    statement.ReadsBack (make s) := by
  intro ts hts
  rw [written, hwrite] at hts
  obtain ⟨word, xs, rfl, hword, hxs⟩ := Token.forms_cons hts
  obtain ⟨mark, rfl, hmark⟩ := Token.forms_single hxs
  have hkeyword := (Token.keyword?_of_form hword).trans htext
  exact ⟨_, hspelled hkeyword (Token.kind_of_form hmark), hmake _ _⟩

theorem closed (h : expression.ReadsBack n) : statement.ReadsBack n := by
  intro ts hts
  obtain ⟨xs, ys, rfl, hxs, hys⟩ := Token.forms_append hts
  obtain ⟨mark, rfl, hmark⟩ := Token.forms_single hys
  obtain ⟨m, hm, hmn⟩ := h xs hxs
  exact ⟨m, .closed hm (Token.kind_of_form hmark), hmn⟩

theorem declare {name : Token} (s : Span) (hname : name.kind = .identifier)
    (hvalue : expression.ReadsBack value) : expression.ReadsBack (.declare name value s) := by
  intro ts hts
  rw [written_expression, Node.write_declare] at hts
  obtain ⟨word, ts, rfl, hword, hts⟩ := Token.forms_cons hts
  obtain ⟨name', ts, rfl, hname', hts⟩ := Token.forms_cons hts
  obtain ⟨mark, ts, rfl, hmark, hts⟩ := Token.forms_cons hts
  obtain ⟨m, hm, hmn⟩ := hvalue ts hts
  have hkind := (Token.kind_of_form hname').trans hname
  have hunplaced := Token.unplaced_of_form hname' (.inl hname)
  refine ⟨_, .declare (Token.keyword?_of_form hword) hkind (Token.kind_of_form hmark) hm, ?_⟩
  rw [Node.unplaced_declare, Node.unplaced_declare, hmn, hunplaced]

theorem logical (h : (tier .logical).ReadsBack n) : expression.ReadsBack n := by
  intro ts hts
  obtain ⟨m, hm, hmn⟩ := h ts hts
  exact ⟨m, .logical hm, hmn⟩

theorem not (s : Span) (h : negation.ReadsBack n) : negation.ReadsBack (.unary .not n s) := by
  intro ts hts
  rw [written_negation, Node.write_unary] at hts
  obtain ⟨word, ts, rfl, hword, hts⟩ := Token.forms_cons hts
  obtain ⟨m, hm, hmn⟩ := h ts hts
  refine ⟨_, .negation (Token.keyword?_of_form hword) hm, ?_⟩
  rw [Node.unplaced_unary, Node.unplaced_unary, hmn]

theorem of_level (h : t.level.ReadsBack n) {ts : List Token}
    (hts : ts.map Token.form = n.write.map Token.form) :
    ∃ m, Spelled (.tier t m) ts ∧ m.unplaced = n.unplaced := by
  obtain ⟨m, hm, hmn⟩ := h ts (by rwa [written_level])
  rw [phrase_level] at hm
  exact ⟨m, hm, hmn⟩

theorem operand (ht : t ≠ .primary) (h : t.operand.level.ReadsBack n) : (tier t).ReadsBack n := by
  intro ts hts
  obtain ⟨m, hm, hmn⟩ := h.of_level hts
  exact ⟨m, .operand ht hm, hmn⟩

theorem binary {op : BinaryOp} (s : Span) (hadmits : op.tier.admits left)
    (hleft : (tier op.tier).ReadsBack left) (hright : op.tier.operand.level.ReadsBack right) :
    (tier op.tier).ReadsBack (.binary left op right s) := by
  intro ts hts
  rw [written_tier, Node.write_binary] at hts
  obtain ⟨xs, ts, rfl, hxs, hts⟩ := Token.forms_append hts
  obtain ⟨token, ys, rfl, htoken, hys⟩ := Token.forms_cons hts
  obtain ⟨a, ha, haleft⟩ := hleft xs hxs
  obtain ⟨b, hb, hbright⟩ := hright.of_level hys
  have hadmits := Tier.admits_of_unplaced haleft hadmits
  refine ⟨_, .join (Tier.operator?_of_form htoken) hadmits ha hb, ?_⟩
  rw [Node.unplaced_binary, Node.unplaced_binary, haleft, hbright]

theorem leaf {make : Token → Node} {token : Token} {k : TokenKind}
    (hspelled : ∀ {x : Token}, x.kind = k → Spelled (.tier .primary (make x)) [x])
    (hwrite : (make token).write = [token]) (htoken : token.kind = k)
    (hk : k = .identifier ∨ k = .number)
    (hmake : ∀ x : Token, (make x).unplaced = make x.unplaced) :
    (tier .primary).ReadsBack (make token) := by
  intro ts hts
  rw [written_tier, hwrite] at hts
  obtain ⟨x, rfl, hx⟩ := Token.forms_single hts
  have hunplaced := Token.unplaced_of_form hx (htoken ▸ hk)
  refine ⟨_, hspelled ((Token.kind_of_form hx).trans htoken), ?_⟩
  rw [hmake, hmake, hunplaced]

theorem group (s : Span) (h : expression.ReadsBack n) : (tier .primary).ReadsBack (.group n s) := by
  intro ts hts
  rw [written_tier, Node.write_group] at hts
  obtain ⟨opening, ts, rfl, hopen, hts⟩ := Token.forms_cons hts
  obtain ⟨xs, ts, rfl, hxs, hts⟩ := Token.forms_append hts
  obtain ⟨close, rfl, hclose⟩ := Token.forms_single hts
  obtain ⟨m, hm, hmn⟩ := h xs hxs
  refine ⟨_, .group (Token.kind_of_form hopen) hm (Token.kind_of_form hclose), ?_⟩
  rw [Node.unplaced_group, Node.unplaced_group, hmn]

theorem signed {op : UnaryOp} (s : Span) (hop : op ≠ .not) (h : (tier .factor).ReadsBack n) :
    (tier .primary).ReadsBack (.unary op n s) := by
  intro ts hts
  rw [written_tier, Node.write_unary] at hts
  obtain ⟨sign, ts, rfl, hsign, hts⟩ := Token.forms_cons hts
  obtain ⟨m, hm, hmn⟩ := h ts hts
  refine ⟨_, .signed (UnaryOp.ofSign?_of_form hop hsign) hm, ?_⟩
  rw [Node.unplaced_unary, Node.unplaced_unary, hmn]

theorem block {text : String} {make : Node → List Node → Span → Node}
    (hword : (Token.mark text).block? = some make)
    (hcondition : expression.ReadsBack condition) (hbody : ∀ n ∈ body, statement.ReadsBack n)
    {ts : List Token}
    (hts : ts.map Token.form = (.mark text :: .mark "(" :: (condition.write ++
      .mark ")" :: .mark "\x7b" :: (Program.write body ++ [.mark "\x7d"]))).map Token.form) :
    ∃ c b s, Spelled (.tier .primary (make c b s)) ts ∧ c.unplaced = condition.unplaced ∧
      b.map Node.unplaced = body.map Node.unplaced := by
  obtain ⟨word, ts, rfl, hform, hts⟩ := Token.forms_cons hts
  obtain ⟨opening, ts, rfl, hopen, hts⟩ := Token.forms_cons hts
  obtain ⟨xs, ts, rfl, hxs, hts⟩ := Token.forms_append hts
  obtain ⟨closing, ts, rfl, hclose, hts⟩ := Token.forms_cons hts
  obtain ⟨brace, ts, rfl, hbrace, hts⟩ := Token.forms_cons hts
  obtain ⟨ys, ts, rfl, hys, hts⟩ := Token.forms_append hts
  obtain ⟨last, rfl, hlast⟩ := Token.forms_single hts
  obtain ⟨c, hc, hcn⟩ := hcondition xs hxs
  obtain ⟨b, hb, hbn⟩ := exists_spelled_statements hbody ys hys
  have hblock := (Token.block?_of_form hform).trans hword
  refine ⟨c, b, _, .block hblock ?_ hc ?_ ?_ hb ?_, hcn, hbn⟩
  · exact Token.kind_of_form hopen
  · exact Token.kind_of_form hclose
  · exact Token.kind_of_form hbrace
  · exact Token.kind_of_form hlast

theorem branch (s : Span) (hcondition : expression.ReadsBack condition)
    (hbody : ∀ n ∈ body, statement.ReadsBack n) :
    (tier .primary).ReadsBack (.branch condition body s) := by
  intro ts hts
  rw [written_tier, Node.write_branch] at hts
  obtain ⟨c, b, s', h, hc, hb⟩ := block rfl hcondition hbody hts
  exact ⟨_, h, by rw [Node.unplaced_branch, Node.unplaced_branch, hc, hb]⟩

theorem loop (s : Span) (hcondition : expression.ReadsBack condition)
    (hbody : ∀ n ∈ body, statement.ReadsBack n) :
    (tier .primary).ReadsBack (.loop condition body s) := by
  intro ts hts
  rw [written_tier, Node.write_loop] at hts
  obtain ⟨c, b, s', h, hc, hb⟩ := block rfl hcondition hbody hts
  exact ⟨_, h, by rw [Node.unplaced_loop, Node.unplaced_loop, hc, hb]⟩

end Level.ReadsBack

theorem Canonical.admits {op : BinaryOp} {left : Node} (hleft : Canonical (.tier op.tier) left)
    (hsign : op ∈ [BinaryOp.power, .multiply, .divide] → left.endsInSign = false) :
    op.tier.admits left := by
  cases op with
  | power | multiply | divide => exact hsign (by decide)
  | equal | notEqual | less | lessEqual | greater | greaterEqual =>
    exact hleft.isNegation_eq_false nofun
  | _ => trivial

theorem Canonical.readsBack {l : Level} {n : Node} (h : Canonical l n) : l.ReadsBack n := by
  induction h with
  | breakLoop s => exact .jump .breakLoop (fun _ => rfl) rfl (fun _ _ => rfl) s
  | continueLoop s => exact .jump .continueLoop (fun _ => rfl) rfl (fun _ _ => rfl) s
  | expression _ ih => exact ih.closed
  | declare s hname _ ih => exact .declare s hname ih
  | logical _ ih => exact ih.logical
  | not s _ ih => exact .not s ih
  | comparison _ ih => exact ih
  | operand ht _ ih => exact .operand ht ih
  | binary s hop hleft _ hsign ihleft ihright =>
    subst hop
    exact .binary s (hleft.admits hsign) ihleft ihright
  | literal htoken => exact .leaf .literal rfl htoken (.inr rfl) fun _ => rfl
  | access hname => exact .leaf .access rfl hname (.inl rfl) fun _ => rfl
  | group s _ ih => exact .group s ih
  | signed s hop _ ih => exact .signed s hop ih
  | branch s _ _ ihcondition ihbody => exact .branch s ihcondition ihbody
  | loop s _ _ ihcondition ihbody => exact .loop s ihcondition ihbody

namespace Spelled

theorem isProper {p : Phrase} {ts : List Token} (h : Spelled p ts) :
    ∀ t ∈ ts, Tokens.isProper t := by
  have of_kind {t : Token} {k : TokenKind} (ht : t.kind = k) (hk : k ≠ .endOfInput := by decide) :
      Tokens.isProper t = true := by
    simp [Tokens.isProper, ht, hk]
  have of_keyword {t : Token} {k : Keyword} (ht : t.keyword? = some k) : Tokens.isProper t = true :=
    of_kind (Token.kind_of_keyword? ht)
  induction h with
  | declare hword hname hmark _ ih =>
    simp only [List.forall_mem_cons]
    exact ⟨of_keyword hword, of_kind hname, of_kind hmark, ih⟩
  | logical _ ih | operand _ _ ih => exact ih
  | negation hword _ ih => exact List.forall_mem_cons.2 ⟨of_keyword hword, ih⟩
  | join hop _ _ _ ihleft ihright =>
    simp only [List.forall_mem_append, List.forall_mem_cons]
    refine ⟨ihleft, ?_, ihright⟩
    have hkind := Tier.kind_of_joins (Tier.isSome_operator?_iff.1 (Option.isSome_of_eq_some hop))
    refine of_kind rfl fun hend => ?_
    simp [hend, TokenKind.operators] at hkind
  | group hopen _ hclose ih =>
    refine List.forall_mem_cons.2 ⟨of_kind hopen, List.forall_mem_append.2 ⟨ih, ?_⟩⟩
    exact List.forall_mem_singleton.2 (of_kind hclose)
  | access hname => exact List.forall_mem_singleton.2 (of_kind hname)
  | literal htoken => exact List.forall_mem_singleton.2 (of_kind htoken)
  | signed hsign _ ih =>
    refine List.forall_mem_cons.2 ⟨?_, ih⟩
    rcases UnaryOp.ofSign?_eq_some hsign with ⟨hkind, -⟩ | ⟨hkind, -⟩ <;> exact of_kind hkind
  | block hword hopen _ hclose hbrace _ hlast ihcondition ihbody =>
    have hword := (Token.block?_eq_some hword).elim (of_keyword ·.1) (of_keyword ·.1)
    have hlast := of_kind hlast
    simp only [List.forall_mem_append, List.forall_mem_cons]
    refine ⟨hword, of_kind hopen, ihcondition, of_kind hclose, of_kind hbrace, ihbody, hlast, ?_⟩
    exact fun _ h => absurd h List.not_mem_nil
  | breakLoop hword hmark | continueLoop hword hmark =>
    have hmark := of_kind hmark
    exact List.forall_mem_cons.2 ⟨of_keyword hword, List.forall_mem_singleton.2 hmark⟩
  | closed _ hmark ih =>
    simp only [List.forall_mem_append]
    exact ⟨ih, List.forall_mem_singleton.2 (of_kind hmark)⟩
  | finished => exact fun _ h => absurd h List.not_mem_nil
  | next _ _ ih ihnext | bare _ _ _ _ ih ihnext => exact List.forall_mem_append.2 ⟨ih, ihnext⟩

end Spelled

namespace Tokens

theorem eq_proper_or {ts : List Token} (hts : ∀ t ∈ ts.dropLast, t.kind ≠ .endOfInput) :
    ts = proper ts ∨ ∃ stop : Token, stop.kind = .endOfInput ∧ ts = proper ts ++ [stop] := by
  rcases List.eq_nil_or_concat ts with rfl | ⟨xs, last, rfl⟩
  · exact .inl rfl
  rw [List.concat_eq_append, List.dropLast_concat] at hts
  have hxs : ∀ t ∈ xs, isProper t := by simpa [isProper] using hts
  rw [List.concat_eq_append]
  by_cases hlast : last.kind = .endOfInput
  · exact .inr ⟨last, hlast, by rw [proper_append_stop hxs hlast]⟩
  · left
    rw [proper, List.takeWhile_append_of_pos hxs]
    simp [isProper, hlast]

end Tokens

/-- The writing of a canonical program, with an end of the input behind it, is read without an
issue and gives the program back, up to places. What is read without an issue from tokens that
end at most at the end of the input is canonical, and they are its writing without some of the
semicolons behind blocks. -/
theorem parse_write_inverse :
    (∀ (p : Program) (ts : List Token) (stop : Token) (ds : List Diagnostic), p.Canonical →
      stop.kind = .endOfInput → ts.map Token.form = (p.write ++ [stop]).map Token.form →
        (parse ts ds).diagnostics = ds ∧
          (parse ts ds).program.map Node.unplaced = p.map Node.unplaced) ∧
    ∀ (ts : List Token) (ds : List Diagnostic), ts ≠ [] →
      (∀ t ∈ ts.dropLast, t.kind ≠ .endOfInput) → (parse ts ds).diagnostics = ds →
        (parse ts ds).program.Canonical ∧
          ∃ xs, Fits (slotsAll (parse ts ds).program) xs ∧
            (ts = xs ∨ ∃ stop : Token, stop.kind = .endOfInput ∧ ts = xs ++ [stop]) := by
  constructor
  · intro p ts stop ds hp hstop hts
    obtain ⟨xs, ys, rfl, hxs, hys⟩ := Token.forms_append hts
    obtain ⟨last, rfl, hlast⟩ := Token.forms_single hys
    obtain ⟨ms, hms, hunplaced⟩ :=
      exists_spelled_statements (fun n hn => (hp n hn).readsBack) xs hxs
    have hproper := Tokens.proper_append_stop hms.isProper ((Token.kind_of_form hlast).trans hstop)
    have hparse := (parse_eq_iff_spelled (List.concat_ne_nil _ _) ds).2 (hproper ▸ hms)
    rw [hparse]
    exact ⟨rfl, hunplaced⟩
  · intro ts ds hne hts hds
    obtain ⟨hcanonical, hfits⟩ := ((parse_diagnostics_eq_iff hne).1 hds).written
    exact ⟨hcanonical, _, hfits, Tokens.eq_proper_or hts⟩

theorem parse_write_signed_power :
    ∃ parsed, parse (Program.write [.binary (.access (.mark "a")) .power
        (.unary .negate (.access (.mark "b")) .nowhere) .nowhere] ++ [.endOfInput (.start "")]) [] =
        parsed ∧
      parsed.program.map Node.unplaced = [.binary (.access (.mark "a")) .power
        (.unary .negate (.access (.mark "b")) .nowhere) .nowhere] ∧
      parsed.program.Canonical := by
  have raise {t : Tier} {n : Node} (ht : t ≠ .primary) (h : Canonical (.tier t.operand) n) :
      Canonical (.tier t) n := .operand ht h.level
  have hleft : Canonical (.tier .power) (.access (.mark "a")) := raise (by decide) (.access rfl)
  have hname : Canonical (.tier .factor) (.access (.mark "b")) :=
    raise (by decide) (raise (by decide) (.access rfl))
  have hright : Canonical (.tier .primary) (.unary .negate (.access (.mark "b")) .nowhere) :=
    .signed _ (by decide) hname
  have hpower := Canonical.binary .nowhere (Eq.refl BinaryOp.power.tier) hleft hright fun _ => rfl
  have hterm := raise (t := .term) (by decide) (raise (t := .factor) (by decide) hpower)
  have hlogical := raise (t := .logical) (by decide) (raise (t := .comparison) (by decide) hterm)
  have hcanonical := List.forall_mem_singleton.2 (Canonical.expression (.logical hlogical))
  obtain ⟨hds, hunplaced⟩ :=
    parse_write_inverse.1 _ _ (.endOfInput (.start "")) [] hcanonical rfl rfl
  refine ⟨_, rfl, hunplaced, (parse_write_inverse.2 _ [] (List.concat_ne_nil _ _) ?_ hds).1⟩
  rw [List.dropLast_concat]
  decide

end Scriptlet
