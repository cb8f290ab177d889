import Scriptlet.Proofs.Token.Separation

/-! What the longest lexeme is. The lexemes are given one by one, without regard to the text that
they stand in. At each place that is not blank the longest of those that the text goes on with
becomes a token, and if there is none the character is told about. What a token stands for is read
off its text. -/

namespace Scriptlet

namespace Lexeme

/-- The lexemes of the language: numerals with at most one point, words and symbols. -/
inductive IsLexeme : List Char → Prop
  | digits {ds} (hne : ds ≠ []) (hds : ∀ d ∈ ds, d.isDigit = true) : IsLexeme ds
  | decimal {ds es} (hne : ds ≠ []) (hds : ∀ d ∈ ds, d.isDigit = true)
      (hes : ∀ e ∈ es, e.isDigit = true) : IsLexeme (ds ++ '.' :: es)
  | word {c cs} (hc : Text.isAlphabetic c = true) (hcs : ∀ d ∈ cs, Text.isAlphanumeric d = true) :
      IsLexeme (c :: cs)
  | symbol {w kind} (h : (w, kind) ∈ TokenKind.symbols) : IsLexeme w

theorem exists_cons_of_mem_symbols {w : List Char} {kind : TokenKind}
    (h : (w, kind) ∈ TokenKind.symbols) :
    ∃ c cs, w = c :: cs ∧ c.isDigit = false ∧ Text.isAlphabetic c = false ∧ cs.length ≤ 1 := by
  have hall : (TokenKind.symbols.all fun entry => entry.1.length ≤ 2 &&
      entry.1.head?.any fun c => !c.isDigit && !Text.isAlphabetic c) = true := by decide +kernel
  obtain ⟨hlength, hhead⟩ := Bool.and_eq_true_iff.1 (List.all_eq_true.1 hall _ h)
  obtain ⟨c, hc, hstarts⟩ := (Option.any_eq_true _ _).1 hhead
  obtain ⟨cs, rfl⟩ := List.head?_eq_some_iff.1 hc
  obtain ⟨hdigit, halphabetic⟩ := Bool.and_eq_true_iff.1 hstarts
  refine ⟨c, cs, rfl, by simpa using hdigit, by simpa using halphabetic, ?_⟩
  simpa using hlength

theorem IsLexeme.ne_nil {w : List Char} (h : IsLexeme w) : w ≠ [] := by
  cases h with
  | digits hne => exact hne
  | decimal hne => exact List.append_ne_nil_of_left_ne_nil hne _
  | word => exact List.cons_ne_nil _ _
  | symbol h =>
    obtain ⟨c, cs, rfl, -⟩ := exists_cons_of_mem_symbols h
    exact List.cons_ne_nil _ _

theorem isLexeme_longest {cs : List Char} (h : longest cs ≠ []) : IsLexeme (longest cs) := by
  obtain _ | ⟨c, rest⟩ := cs
  · exact absurd rfl h
  simp only [longest] at h ⊢
  split
  · next hdigit =>
    have hne : (c :: rest).takeWhile Char.isDigit ≠ [] := by
      rw [List.takeWhile_cons_of_pos hdigit]
      exact List.cons_ne_nil _ _
    have hdigits {cs : List Char} : ∀ d ∈ cs.takeWhile Char.isDigit, d.isDigit = true :=
      fun d hd => List.mem_takeWhile_imp hd
    unfold numeral
    split
    · exact .decimal hne hdigits hdigits
    · exact .digits hne hdigits
  · next hdigit =>
    rw [if_neg hdigit] at h
    split
    · next halphabetic => exact .word halphabetic fun d hd => List.mem_takeWhile_imp hd
    · next halphabetic =>
      rw [if_neg halphabetic] at h
      obtain ⟨kind, hkind⟩ := Option.isSome_iff_exists.1 (isSome_ofSymbol?_symbol h)
      exact .symbol (TokenKind.ofSymbol?_eq_some_iff.1 hkind)

theorem takeWhile_isPrefix_numeral (cs : List Char) :
    cs.takeWhile Char.isDigit <+: numeral cs := by
  unfold numeral
  split
  · exact List.prefix_append _ _
  · exact List.prefix_refl _

theorem isPrefix_numeral_of_decimal {ds es cs : List Char} (hds : ∀ d ∈ ds, d.isDigit = true)
    (hes : ∀ e ∈ es, e.isDigit = true) (h : ds ++ '.' :: es <+: cs) :
    ds ++ '.' :: es <+: numeral cs := by
  obtain ⟨tail, rfl⟩ := h
  rw [List.append_assoc, List.cons_append]
  have hpoint : '.'.isDigit = false := by decide
  have hdrop : (ds ++ '.' :: (es ++ tail)).dropWhile Char.isDigit = '.' :: (es ++ tail) := by
    rw [List.dropWhile_append_of_pos hds, List.dropWhile_cons_of_neg (by simp [hpoint])]
  rw [numeral, hdrop, LeadingRun.takeWhile_append_cons hds hpoint]
  refine (List.prefix_append_right_inj ds).2 ((List.prefix_cons_inj '.').2 ?_)
  exact LeadingRun.isPrefix_takeWhile (List.prefix_append es tail) hes

theorem isPrefix_symbol {w cs : List Char} {kind : TokenKind} (hw : (w, kind) ∈ TokenKind.symbols)
    (h : w <+: cs) : w <+: symbol cs := by
  have hkind : (TokenKind.ofSymbol? w).isSome := by
    rw [TokenKind.ofSymbol?_eq_some_iff.2 hw]
    rfl
  obtain ⟨tail, rfl⟩ := h
  obtain ⟨c, more, rfl, -, -, hlength⟩ := exists_cons_of_mem_symbols hw
  obtain _ | ⟨d, _ | ⟨e, more⟩⟩ := more
  · unfold symbol
    split
    · exact (List.prefix_cons_inj c).2 List.nil_prefix
    · have hsingle : (if (TokenKind.ofSymbol? [c]).isSome then [c] else []) = [c] := if_pos hkind
      exact ⟨[], (List.append_nil _).trans hsingle.symm⟩
  · have hsymbol : symbol ([c, d] ++ tail) = [c, d] := if_pos hkind
    exact ⟨[], (List.append_nil _).trans hsymbol.symm⟩
  · simp at hlength

theorem isPrefix_longest {v cs : List Char} (hv : IsLexeme v) (h : v <+: cs) :
    v <+: longest cs := by
  have hdigit (more : List Char) {ds : List Char} (hne : ds ≠ []) (hds : ∀ d ∈ ds, d.isDigit = true)
      (h : ds ++ more <+: cs) : longest cs = numeral cs := by
    obtain ⟨tail, rfl⟩ := h
    obtain ⟨c, ds, rfl⟩ := List.exists_cons_of_ne_nil hne
    exact if_pos (hds c List.mem_cons_self)
  -- the first character of the lexeme settles how the text is cut
  cases hv with
  | digits hne hds =>
    rw [hdigit [] hne hds (by rwa [List.append_nil])]
    exact (LeadingRun.isPrefix_takeWhile h hds).trans (takeWhile_isPrefix_numeral cs)
  | decimal hne hds hes =>
    rw [hdigit _ hne hds h]
    exact isPrefix_numeral_of_decimal hds hes h
  | @word c more hc hmore =>
    obtain ⟨tail, rfl⟩ := h
    rw [List.cons_append, longest, if_neg (by simp [Text.isDigit_of_isAlphabetic hc]), if_pos hc]
    refine (List.prefix_cons_inj c).2 ?_
    exact LeadingRun.isPrefix_takeWhile (List.prefix_append more tail) hmore
  | symbol hsymbol =>
    obtain ⟨c, more, rfl, hcdigit, hcalphabetic, -⟩ := exists_cons_of_mem_symbols hsymbol
    have hlongest : longest cs = symbol cs := by
      obtain ⟨tail, rfl⟩ := h
      rw [List.cons_append, longest, if_neg (by simp [hcdigit]), if_neg (by simp [hcalphabetic])]
    rw [hlongest]
    exact isPrefix_symbol hsymbol h

theorem longest_eq_nil_iff {cs : List Char} :
    longest cs = [] ↔ ∀ v, IsLexeme v → ¬ v <+: cs := by
  constructor
  · intro h v hv hstarts
    have hlongest := isPrefix_longest hv hstarts
    rw [h, List.prefix_nil] at hlongest
    exact hv.ne_nil hlongest
  · intro h
    by_contra hne
    exact h _ (isLexeme_longest hne) (longest_isPrefix cs)

theorem longest_eq_of_maximal {w cs : List Char} (hw : IsLexeme w) (hstarts : w <+: cs)
    (hmax : ∀ v, IsLexeme v → v <+: cs → v.length ≤ w.length) : longest cs = w := by
  have hlongest := isPrefix_longest hw hstarts
  have hne : longest cs ≠ [] := fun hnil => hw.ne_nil (List.prefix_nil.1 (hnil ▸ hlongest))
  have hlength := hmax _ (isLexeme_longest hne) (longest_isPrefix cs)
  exact (hlongest.eq_of_length_le hlength).symm

theorem ofSymbol?_eq_none {c : Char} (hc : c.isDigit = true ∨ Text.isAlphabetic c = true)
    (cs : List Char) : TokenKind.ofSymbol? (c :: cs) = none := by
  refine Option.eq_none_iff_forall_ne_some.2 fun kind hkind => ?_
  obtain ⟨_, _, heq, hdigit, halphabetic, -⟩ :=
    exists_cons_of_mem_symbols (TokenKind.ofSymbol?_eq_some_iff.1 hkind)
  obtain ⟨rfl, -⟩ := List.cons.inj heq
  rcases hc with hc | hc
  · exact nomatch hc.symm.trans hdigit
  · exact nomatch hc.symm.trans halphabetic

theorem ofText?_eq_none {w : List Char} (h : ∀ k : Keyword, k.text.toList ≠ w) :
    Keyword.ofText? (String.ofList w) = none := by
  refine Option.eq_none_iff_forall_ne_some.2 fun k hk => h k ?_
  rw [Keyword.ofText?_eq_some_iff.1 hk, String.toList_ofList]

theorem exists_cons_text (k : Keyword) :
    ∃ c cs, k.text.toList = c :: cs ∧ Text.isAlphabetic c = true := by
  cases k <;> exact ⟨_, _, rfl, by decide +kernel⟩

inductive Classified : List Char → TokenKind → Option Literal → Prop
  | number {c cs} (hc : c.isDigit = true) :
      Classified (c :: cs) .number (some (Literal.ofNumeral (c :: cs)))
  | keyword (k : Keyword) : Classified k.text.toList .keyword (some (.keyword k))
  | identifier {c cs} (hc : Text.isAlphabetic c = true)
      (hnone : ∀ k : Keyword, k.text.toList ≠ c :: cs) : Classified (c :: cs) .identifier none
  | symbol {w kind} (h : (w, kind) ∈ TokenKind.symbols) : Classified w kind none

theorem Classified.eq {w : List Char} {kind : TokenKind} {literal : Option Literal}
    (h : Classified w kind literal) : kind = .ofText w ∧ literal = Literal.ofText? w := by
  cases h with
  | @number c cs hc =>
    have hnone : Keyword.ofText? (String.ofList (c :: cs)) = none := by
      refine ofText?_eq_none fun k hk => ?_
      obtain ⟨d, ds, htext, hd⟩ := exists_cons_text k
      obtain ⟨rfl, -⟩ := List.cons.inj (htext.symm.trans hk)
      exact nomatch hc.symm.trans (Text.isDigit_of_isAlphabetic hd)
    have hkind : TokenKind.ofText (c :: cs) = .number := by
      rw [TokenKind.ofText, ofSymbol?_eq_none (.inl hc), hnone]
      exact if_pos hc
    rw [Literal.ofText?, hkind]
    exact ⟨rfl, rfl⟩
  | keyword k => cases k <;> exact ⟨rfl, rfl⟩
  | @identifier c cs hc hnone =>
    have hkind : TokenKind.ofText (c :: cs) = .identifier := by
      rw [TokenKind.ofText, ofSymbol?_eq_none (.inr hc), ofText?_eq_none hnone]
      exact if_neg (Bool.eq_false_iff.1 (Text.isDigit_of_isAlphabetic hc))
    rw [Literal.ofText?, hkind]
    exact ⟨rfl, rfl⟩
  | symbol h =>
    have hkind : TokenKind.ofText w = kind := by
      rw [TokenKind.ofText, TokenKind.ofSymbol?_eq_some_iff.2 h]
    have hall : ∀ entry ∈ TokenKind.symbols, entry.2 ≠ .number ∧ entry.2 ≠ .keyword := by decide
    obtain ⟨hnumber, hkeyword⟩ := hall _ h
    rw [Literal.ofText?, hkind]
    split
    · exact absurd rfl hnumber
    · exact absurd rfl hkeyword
    · exact ⟨rfl, rfl⟩

theorem IsLexeme.exists_classified {w : List Char} (h : IsLexeme w) :
    ∃ kind literal, Classified w kind literal := by
  have hnumber (more : List Char) {ds : List Char} (hne : ds ≠ [])
      (hds : ∀ d ∈ ds, d.isDigit = true) :
      ∃ kind literal, Classified (ds ++ more) kind literal := by
    obtain ⟨d, ds, rfl⟩ := List.exists_cons_of_ne_nil hne
    exact ⟨_, _, .number (hds d List.mem_cons_self)⟩
  cases h with
  | digits hne hds => exact List.append_nil w ▸ hnumber [] hne hds
  | decimal hne hds => exact hnumber _ hne hds
  | @word c cs hc =>
    by_cases hkeyword : ∃ k : Keyword, k.text.toList = c :: cs
    · obtain ⟨k, hk⟩ := hkeyword
      exact ⟨_, _, hk ▸ Classified.keyword k⟩
    · exact ⟨_, _, .identifier hc (not_exists.1 hkeyword)⟩
  | symbol h => exact ⟨_, _, .symbol h⟩

theorem Classified.unique {w : List Char} {kind kind' : TokenKind}
    {literal literal' : Option Literal}
    (h : Classified w kind literal) (h' : Classified w kind' literal') :
    kind = kind' ∧ literal = literal' :=
  ⟨h.eq.1.trans h'.eq.1.symm, h.eq.2.trans h'.eq.2.symm⟩

theorem classified_keyword_iff {w : List Char} {kind : TokenKind} {literal : Option Literal}
    (h : Classified w kind literal) (k : Keyword) :
    kind = .keyword ∧ literal = some (.keyword k) ↔ w = k.text.toList := by
  constructor
  · rintro ⟨rfl, rfl⟩
    cases h with
    | keyword k => rfl
  · rintro rfl
    exact h.unique (.keyword k)

end Lexeme

theorem pieces_stray {c : Char} {cs : List Char} (hblank : Text.isBlank c = false)
    (hnone : ∀ v, Lexeme.IsLexeme v → ¬ v <+: c :: cs) :
    pieces (c :: cs) = .stray c :: pieces cs :=
  pieces_of_longest_eq_nil hblank (Lexeme.longest_eq_nil_iff.2 hnone)

namespace Lexed

/-- What the scanning of a text from a place on comes to. A blank character is passed over. The
longest lexeme that the text goes on with is a token, and a character that starts none is told
about. Scanning goes on behind these. -/
inductive Scans : Position → List Char → Lexed → Prop
  | finish {p} : Scans p [] ⟨[.endOfInput p], []⟩
  | blank {p c cs l} (hc : Text.isBlank c = true) (h : Scans (p.advance c) cs l) :
      Scans p (c :: cs) l
  | lexeme {p w cs kind literal l} (hw : Lexeme.IsLexeme w)
      (hmax : ∀ v, Lexeme.IsLexeme v → v <+: w ++ cs → v.length ≤ w.length)
      (hkind : Lexeme.Classified w kind literal) (h : Scans (p.advanceBy w) cs l) :
      Scans p (w ++ cs)
        { l with tokens := ⟨kind, String.ofList w, literal, ⟨p, p.advanceBy w⟩⟩ :: l.tokens }
  | bang {p cs l} (hnone : ∀ v, Lexeme.IsLexeme v → ¬ v <+: '!' :: cs)
      (h : Scans (p.advance '!') cs l) :
      Scans p ('!' :: cs)
        { l with
          diagnostics :=
            { kind := .expectedCharacter
              span := ⟨p, p.advance '!'⟩
              message := "'=' (after '!')"
              help := some "Use '!=' for inequality or 'not' for negation." } :: l.diagnostics }
  | illegal {p c cs l} (hblank : Text.isBlank c = false) (hc : c ≠ '!')
      (hnone : ∀ v, Lexeme.IsLexeme v → ¬ v <+: c :: cs) (h : Scans (p.advance c) cs l) :
      Scans p (c :: cs)
        { l with
          diagnostics :=
            { kind := .illegalCharacter, span := ⟨p, p.advance c⟩, message := s!"'{c}'" }
              :: l.diagnostics }

theorem scans_ofPieces (p : Position) (cs : List Char) : Scans p cs (ofPieces p (pieces cs)) := by
  induction cs using pieces_induction generalizing p with
  | nil =>
    rw [pieces_nil]
    exact .finish
  | blank c cs hblank ih =>
    rw [pieces_blank hblank]
    exact .blank hblank (ih _)
  | stray c cs hblank hlongest ih =>
    have hnone := Lexeme.longest_eq_nil_iff.1 hlongest
    rw [pieces_of_longest_eq_nil hblank hlongest, ofPieces, strayDiagnostic]
    split
    · next hbang =>
      subst hbang
      exact .bang hnone (ih _)
    · next hbang => exact .illegal hblank hbang hnone (ih _)
  | lexeme c more tail hblank hlongest ih =>
    have hw : Lexeme.IsLexeme (c :: more) :=
      hlongest ▸ Lexeme.isLexeme_longest (hlongest ▸ List.cons_ne_nil _ _)
    have hmax (v : List Char) (hv : Lexeme.IsLexeme v) (h : v <+: c :: (more ++ tail)) :
        v.length ≤ (c :: more).length :=
      (hlongest ▸ Lexeme.isPrefix_longest hv h).length_le
    obtain ⟨kind, literal, hkind⟩ := hw.exists_classified
    have hscan := Scans.lexeme hw hmax hkind (ih (p.advanceBy (c :: more)))
    obtain ⟨rfl, rfl⟩ := hkind.eq
    rw [pieces_eq_lexeme hblank hlongest]
    exact hscan

theorem Scans.eq_ofPieces {p : Position} {cs : List Char} {l : Lexed} (h : Scans p cs l) :
    l = ofPieces p (pieces cs) := by
  induction h with
  | finish =>
    rw [pieces_nil]
    rfl
  | blank hc _ ih =>
    rw [pieces_blank hc, ih]
    rfl
  | @lexeme p w cs kind literal l hw hmax hkind _ ih =>
    have hlongest := Lexeme.longest_eq_of_maximal hw (List.prefix_append w cs) hmax
    obtain ⟨c, more, rfl⟩ := List.exists_cons_of_ne_nil hw.ne_nil
    have hmem : c ∈ Lexeme.longest (c :: more ++ cs) := by
      rw [hlongest]
      exact List.mem_cons_self
    obtain ⟨rfl, rfl⟩ := hkind.eq
    rw [List.cons_append, pieces_eq_lexeme (Lexeme.isBlank_of_mem_longest hmem) hlongest, ih]
    rfl
  | bang hnone _ ih =>
    rw [pieces_stray (by decide) hnone, ih]
    rfl
  | illegal hblank hc hnone _ ih =>
    rw [pieces_stray hblank hnone, ih, ofPieces, strayDiagnostic, if_neg hc]
    rfl

end Lexed

theorem Token.classified_of_mem_lex {source text : String} {t : Token}
    (h : t ∈ (lex source text).tokens) :
    (t.text.toList = [] ∧ t.kind = .endOfInput ∧ t.literal = none) ∨
      Lexeme.IsLexeme t.text.toList ∧ Lexeme.Classified t.text.toList t.kind t.literal := by
  rw [lex, Lexed.tokens_ofPieces] at h
  rcases List.mem_append.1 h with h | h
  · obtain ⟨before, w, after, hpieces, rfl⟩ := Lexed.exists_of_mem_words h
    have hmem : .lexeme w ∈ pieces text.toList := by simp [hpieces]
    have hword := Lexeme.isWord_of_mem_pieces hmem
    have hlexeme : Lexeme.IsLexeme w :=
      hword.longest_eq ▸ Lexeme.isLexeme_longest (hword.longest_eq.symm ▸ hword.ne_nil)
    obtain ⟨kind, literal, hkind⟩ := hlexeme.exists_classified
    obtain ⟨rfl, rfl⟩ := hkind.eq
    rw [Token.ofText, String.toList_ofList]
    exact .inr ⟨hlexeme, hkind⟩
  · obtain rfl := List.mem_singleton.1 h
    exact .inl ⟨rfl, rfl, rfl⟩

/-- The text is cut at each place into the longest lexeme, and what a token is can be told from its
text alone: a word is a keyword if it is spelled as one, and an identifier if not. -/
theorem lex_longest_match (source text : String) :
    (∀ l, Lexed.Scans (.start source) text.toList l ↔ lex source text = l) ∧
      ∀ t ∈ (lex source text).tokens,
        (∀ source' text', ∀ u ∈ (lex source' text').tokens, u.text = t.text →
          u.kind = t.kind ∧ u.literal = t.literal) ∧
        (∀ k : Keyword, t.kind = .keyword ∧ t.literal = some (.keyword k) ↔ t.text = k.text) ∧
        (t.text.toList.head?.any Text.isAlphabetic = true → (∀ k : Keyword, t.text ≠ k.text) →
          t.kind = .identifier ∧ t.literal = none) := by
  refine ⟨fun l => ⟨fun h => h.eq_ofPieces.symm, ?_⟩, fun t ht => ⟨?_, ?_, ?_⟩⟩
  · rintro rfl
    exact Lexed.scans_ofPieces _ _
  · intro source' text' u hu htext
    have hfirst := Token.classified_of_mem_lex hu
    rw [htext] at hfirst
    rcases hfirst, Token.classified_of_mem_lex ht with
      ⟨⟨hnil, hkind, hliteral⟩ | ⟨hlexeme, hkind⟩, ⟨hnil', hkind', hliteral'⟩ | ⟨hlexeme', hkind'⟩⟩
    · exact ⟨hkind.trans hkind'.symm, hliteral.trans hliteral'.symm⟩
    · exact absurd hnil hlexeme'.ne_nil
    · exact absurd hnil' hlexeme.ne_nil
    · exact hkind.unique hkind'
  · intro k
    rw [← String.toList_inj]
    rcases Token.classified_of_mem_lex ht with ⟨hnil, hkind, -⟩ | ⟨-, hkind⟩
    · obtain ⟨c, cs, htext, -⟩ := Lexeme.exists_cons_text k
      simp [hnil, hkind, htext]
    · exact Lexeme.classified_keyword_iff hkind k
  · intro halphabetic hnone
    obtain ⟨c, hc, halphabetic⟩ := (Option.any_eq_true _ _).1 halphabetic
    obtain ⟨cs, hcs⟩ := List.head?_eq_some_iff.1 hc
    have hidentifier : Lexeme.Classified t.text.toList .identifier none := by
      rw [hcs]
      refine .identifier halphabetic fun k hk => hnone k ?_
      rw [← String.toList_inj, hcs, hk]
    rcases Token.classified_of_mem_lex ht with ⟨hnil, -⟩ | ⟨-, hkind⟩
    · exact nomatch hcs.symm.trans hnil
    · exact hkind.unique hidentifier

end Scriptlet
