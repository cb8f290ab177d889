import Scriptlet.Proofs.Syntax.Writing
import Scriptlet.Proofs.Text.LeadingRun
import Scriptlet.Proofs.Token.Coverage

/-! Words apart. Every lexeme ends in front of a blank character, so a text that is made of lexemes
with blank characters between them falls apart into just these. -/

namespace Scriptlet

namespace Lexeme

structure IsWord (w : List Char) : Prop where
  ne_nil : w ≠ []
  longest_eq : longest w = w

theorem isAlphanumeric_of_isBlank {b : Char} (hb : Text.isBlank b = true) :
    Text.isAlphanumeric b = false := by
  refine Bool.eq_false_iff.2 fun h => ?_
  exact nomatch hb.symm.trans (Text.isBlank_of_isAlphanumeric h)

theorem isDigit_of_isBlank {b : Char} (hb : Text.isBlank b = true) : b.isDigit = false := by
  refine Bool.eq_false_iff.2 fun h => ?_
  exact nomatch hb.symm.trans (Text.isBlank_of_isDigit h)

theorem numeral_append_blank {w : List Char} (h : numeral w = w) {b : Char}
    (hb : Text.isBlank b = true) (ys : List Char) : numeral (w ++ b :: ys) = w := by
  have hdigit := isDigit_of_isBlank hb
  have hsplit := List.takeWhile_append_dropWhile (p := Char.isDigit) (l := w)
  rcases hrest : w.dropWhile Char.isDigit with _ | ⟨d, rest⟩
  · have hall : ∀ c ∈ w, c.isDigit = true := List.dropWhile_eq_nil_iff.1 hrest
    have hdrop : (w ++ b :: ys).dropWhile Char.isDigit = b :: ys := by
      rw [List.dropWhile_append_of_pos hall, List.dropWhile_cons_of_neg (by simp [hdigit])]
    rw [numeral, hdrop, LeadingRun.takeWhile_append_cons hall hdigit]
    split
    · next heq =>
      obtain ⟨rfl, -⟩ := List.cons.inj heq
      exact absurd hb (by decide)
    · rfl
  · rw [hrest] at hsplit
    have hdrop : (w ++ b :: ys).dropWhile Char.isDigit = d :: (rest ++ b :: ys) := by
      rw [List.dropWhile_append, hrest]
      rfl
    have hlength := congrArg List.length hsplit
    rw [List.length_append, List.length_cons] at hlength
    have hwhole : (w.takeWhile Char.isDigit).length < w.length := by omega
    unfold numeral at h ⊢
    rw [hdrop, LeadingRun.takeWhile_append_of_lt hwhole]
    rw [hrest] at h
    split at h
    · next heq =>
      obtain ⟨rfl, rfl⟩ := List.cons.inj heq
      -- the digits behind the point are all that is left of the word
      have hdigits : rest.takeWhile Char.isDigit = rest :=
        (List.cons.inj (List.append_cancel_left (h.trans hsplit.symm))).2
      have hall : ∀ c ∈ rest, c.isDigit = true := List.takeWhile_eq_self_iff.1 hdigits
      simp only [LeadingRun.takeWhile_append_cons hall hdigit, hsplit]
    · have hall : w.takeWhile Char.isDigit = w := h
      rw [hall] at hwhole
      exact absurd hwhole (Nat.lt_irrefl _)

theorem symbol_append_blank {w : List Char} (h : symbol w = w) (hne : w ≠ []) {b : Char}
    (hb : Text.isBlank b = true) (ys : List Char) : symbol (w ++ b :: ys) = w := by
  have hsymbol := isSome_ofSymbol?_symbol (h.symm ▸ hne)
  rw [h] at hsymbol
  obtain _ | ⟨c, _ | ⟨d, _ | ⟨e, more⟩⟩⟩ := w
  · exact absurd rfl hne
  · -- no symbol has a blank character for its second
    have hpair : (TokenKind.ofSymbol? [c, b]).isSome = false := by
      refine Bool.eq_false_iff.2 fun hpair => ?_
      have hmem : b ∈ symbol [c, b] := by simp [symbol, hpair]
      exact nomatch hb.symm.trans (isBlank_of_mem_symbol hmem)
    simp [symbol, hpair, hsymbol]
  · simp [symbol, hsymbol]
  · have hlength := congrArg List.length h
    unfold symbol at hlength
    split at hlength
    · simp at hlength
    · split at hlength <;> simp at hlength

theorem IsWord.longest_append {w : List Char} (h : IsWord w) {b : Char}
    (hb : Text.isBlank b = true) (ys : List Char) : longest (w ++ b :: ys) = w := by
  obtain _ | ⟨c, more⟩ := w
  · exact absurd rfl h.ne_nil
  have hlongest := h.longest_eq
  simp only [longest, List.cons_append] at hlongest ⊢
  split
  · next hdigit =>
    rw [if_pos hdigit] at hlongest
    exact numeral_append_blank hlongest hb ys
  · next hdigit =>
    rw [if_neg hdigit] at hlongest
    split
    · next halphabetic =>
      rw [if_pos halphabetic] at hlongest
      have hmore := (List.cons.inj hlongest).2
      have hall : ∀ d ∈ more, Text.isAlphanumeric d = true := by
        rw [← hmore]
        exact fun d hd => List.mem_takeWhile_imp hd
      rw [LeadingRun.takeWhile_append_cons hall (isAlphanumeric_of_isBlank hb)]
    · next halphabetic =>
      rw [if_neg halphabetic] at hlongest
      exact symbol_append_blank hlongest h.ne_nil hb ys

theorem IsWord.of_ofSymbol? {w : List Char} (h : (TokenKind.ofSymbol? w).isSome) : IsWord w := by
  have hall : ∀ entry ∈ TokenKind.symbols, entry.1 ≠ [] ∧ longest entry.1 = entry.1 := by
    decide +kernel
  obtain ⟨kind, hkind⟩ := Option.isSome_iff_exists.1 h
  obtain ⟨hne, hlongest⟩ := hall _ (TokenKind.ofSymbol?_eq_some_iff.1 hkind)
  exact ⟨hne, hlongest⟩

theorem numeral_numeral (cs : List Char) : numeral (numeral cs) = numeral cs := by
  obtain ⟨tail, htail⟩ := numeral_isPrefix cs
  refine (numeral_isPrefix (numeral cs)).eq_of_length_le (Nat.le_of_not_lt fun hlt => ?_)
  -- a shorter numeral in there would be the one that the text starts with
  have happend := numeral_append hlt tail
  rw [htail] at happend
  rw [← happend] at hlt
  exact absurd hlt (Nat.lt_irrefl _)

theorem IsWord.of_longest {cs : List Char} (h : longest cs ≠ []) : IsWord (longest cs) := by
  obtain _ | ⟨c, rest⟩ := cs
  · exact absurd rfl h
  by_cases hdigit : c.isDigit = true
  · have hnumeral (more : List Char) : longest (c :: more) = numeral (c :: more) := if_pos hdigit
    obtain ⟨more, hmore⟩ : ∃ more, numeral (c :: rest) = c :: more := by
      unfold numeral
      rw [List.takeWhile_cons_of_pos hdigit]
      split <;> exact ⟨_, rfl⟩
    refine ⟨h, ?_⟩
    rw [hnumeral, hmore, hnumeral, ← hmore, numeral_numeral]
  by_cases halphabetic : Text.isAlphabetic c = true
  · have hname (more : List Char) :
        longest (c :: more) = c :: more.takeWhile Text.isAlphanumeric := by
      rw [longest, if_neg hdigit, if_pos halphabetic]
    refine ⟨h, ?_⟩
    rw [hname, hname, List.takeWhile_takeWhile]
    simp
  · have hsymbol : longest (c :: rest) = symbol (c :: rest) := by
      rw [longest, if_neg hdigit, if_neg halphabetic]
    rw [hsymbol] at h ⊢
    exact .of_ofSymbol? (isSome_ofSymbol?_symbol h)

theorem isWord_of_mem_pieces {cs w : List Char} (h : .lexeme w ∈ pieces cs) : IsWord w := by
  induction cs using pieces_induction with
  | nil =>
    rw [pieces_nil] at h
    cases h
  | blank c cs hblank ih =>
    rw [pieces_blank hblank] at h
    exact ih ((List.mem_cons.1 h).resolve_left nofun)
  | stray c cs hblank hlongest ih =>
    rw [pieces_of_longest_eq_nil hblank hlongest] at h
    exact ih ((List.mem_cons.1 h).resolve_left nofun)
  | lexeme c more tail hblank hlongest ih =>
    rw [pieces_eq_lexeme hblank hlongest] at h
    rcases List.mem_cons.1 h with heq | h
    · cases heq
      rw [← hlongest]
      exact .of_longest (by simp [hlongest])
    · exact ih h

/-- A text that is made of the words, with blank characters between any two of them. -/
inductive Spaced : List (List Char) → List Char → Prop
  | nil : Spaced [] []
  | last {w} (hw : IsWord w) : Spaced [w] w
  | blank {ws cs b} (hb : Text.isBlank b = true) (h : Spaced ws cs) : Spaced ws (b :: cs)
  | word {w ws cs b} (hw : IsWord w) (hb : Text.isBlank b = true) (h : Spaced ws cs) :
      Spaced (w :: ws) (w ++ b :: cs)

end Lexeme

namespace Piece

def text? : Piece → Option (List Char)
  | lexeme text => some text
  | _ => none

end Piece

namespace Lexeme

theorem IsWord.pieces_append {w tail : List Char} (hw : IsWord w)
    (h : longest (w ++ tail) = w) : pieces (w ++ tail) = .lexeme w :: pieces tail := by
  obtain _ | ⟨c, more⟩ := w
  · exact absurd rfl hw.ne_nil
  have hmem : c ∈ longest (c :: more) := by
    rw [hw.longest_eq]
    exact List.mem_cons_self
  exact pieces_eq_lexeme (isBlank_of_mem_longest hmem) h

theorem IsWord.pieces_self {w : List Char} (hw : IsWord w) : pieces w = [.lexeme w] := by
  have hlongest : longest (w ++ []) = w := by rw [List.append_nil, hw.longest_eq]
  have hpieces := hw.pieces_append hlongest
  rwa [List.append_nil, pieces] at hpieces

theorem Spaced.cut {ws : List (List Char)} {cs : List Char} (h : Spaced ws cs) :
    (∀ piece ∈ pieces cs, piece.isStray = false) ∧ (pieces cs).filterMap Piece.text? = ws := by
  induction h with
  | nil => simp [pieces]
  | last hw =>
    rw [hw.pieces_self]
    exact ⟨List.forall_mem_singleton.2 rfl, rfl⟩
  | blank hb _ ih =>
    rw [pieces, if_pos hb]
    exact ⟨List.forall_mem_cons.2 ⟨rfl, ih.1⟩, ih.2⟩
  | @word w ws cs b hw hb _ ih =>
    rw [hw.pieces_append (hw.longest_append hb cs), pieces, if_pos hb]
    refine ⟨?_, congrArg (w :: ·) ih.2⟩
    exact List.forall_mem_cons.2 ⟨rfl, List.forall_mem_cons.2 ⟨rfl, ih.1⟩⟩

theorem Spaced.intercalate {ws : List (List Char)} (h : ∀ w ∈ ws, IsWord w) :
    Spaced ws ([' '].intercalate ws) := by
  induction ws with
  | nil => exact .nil
  | cons w ws ih =>
    obtain ⟨hw, hws⟩ := List.forall_mem_cons.1 h
    obtain _ | ⟨v, vs⟩ := ws
    · rw [List.intercalate_singleton]
      exact .last hw
    · rw [List.intercalate_cons_cons, List.append_assoc]
      exact .word hw (by decide) (ih hws)

end Lexeme

namespace Lexed

theorem unplaced_words (p : Position) (ps : List Piece) :
    (words p ps).map Token.unplaced =
      (ps.filterMap Piece.text?).map fun w => Token.ofText w .nowhere := by
  induction ps generalizing p with
  | nil => rfl
  | cons piece ps ih =>
    cases piece with
    | lexeme text => exact congrArg (_ :: ·) (ih _)
    | blank c | stray c => exact ih _

end Lexed

namespace Token

def Lexable (t : Token) : Prop :=
  ∃ source text, ∃ u ∈ (lex source text).tokens, u.unplaced = t.unplaced

structure IsWord (t : Token) : Prop where
  word : Lexeme.IsWord t.text.toList
  unplaced_eq : t.unplaced = .ofText t.text.toList .nowhere

theorem isWord_ofText {w : List Char} (hw : Lexeme.IsWord w) (s : Span) : (ofText w s).IsWord := by
  have htext : (ofText w s).text.toList = w := String.toList_ofList
  constructor
  · rwa [htext]
  · rw [htext]
    rfl

theorem isWord_iff {t : Token} : t.IsWord ↔ t.Lexable ∧ t.kind ≠ .endOfInput := by
  constructor
  · rintro ⟨hword, heq⟩
    have hkind : TokenKind.ofText t.text.toList = t.kind :=
      show (ofText t.text.toList .nowhere).kind = t.unplaced.kind by rw [heq]
    let u := ofText t.text.toList (.along (.start "") t.text.toList)
    refine ⟨⟨"", t.text, u, ?_, heq.symm⟩, ?_⟩
    · rw [lex, hword.pieces_self]
      exact List.mem_cons_self
    · exact hkind ▸ (TokenKind.of_ofText rfl).1
  · rintro ⟨⟨source, text, u, hu, heq⟩, hkind⟩
    have hkinds : u.kind = t.kind := show u.unplaced.kind = t.unplaced.kind by rw [heq]
    have hword := mem_words_of_kind hu (hkinds ▸ hkind)
    obtain ⟨before, w, after, hpieces, rfl⟩ := Lexed.exists_of_mem_words hword
    have htext : String.ofList w = t.text := show (ofText w _).unplaced.text = t.unplaced.text by
      rw [heq]
    have hw : t.text.toList = w := by rw [← htext, String.toList_ofList]
    have hmem : .lexeme w ∈ pieces text.toList := by simp [hpieces]
    rw [← hw] at heq hmem
    exact ⟨Lexeme.isWord_of_mem_pieces hmem, heq.symm⟩

end Token

def Tokens.spaced (ts : List Token) : String := " ".intercalate (ts.map Token.text)

theorem Tokens.words_spaced {ts : List Token} (h : ∀ t ∈ ts, t.IsWord) (p : Position) :
    (∀ piece ∈ pieces (spaced ts).toList, piece.isStray = false) ∧
      (Lexed.words p (pieces (spaced ts).toList)).map Token.unplaced = ts.map Token.unplaced := by
  have htext : (spaced ts).toList = [' '].intercalate (ts.map (·.text.toList)) := by
    rw [spaced, String.toList_intercalate, List.map_map]
    rfl
  have hwords : ∀ w ∈ ts.map (·.text.toList), Lexeme.IsWord w := by
    intro w hw
    obtain ⟨t, ht, rfl⟩ := List.mem_map.1 hw
    exact (h t ht).word
  obtain ⟨hstray, hlexemes⟩ := (Lexeme.Spaced.intercalate hwords).cut
  rw [htext, Lexed.unplaced_words, hlexemes, List.map_map]
  exact ⟨hstray, List.map_congr_left fun t ht => (h t ht).unplaced_eq.symm⟩

end Scriptlet
