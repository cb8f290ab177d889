import Mathlib.Data.List.TakeWhile
import Scriptlet.Proofs.Token.Concatenation

/-! What a token stream has of its text. The pieces of a text lie end to end, so every character
is in one token or is a stray one that is told about, unless it is blank; no lexeme holds a blank
character. -/

namespace Scriptlet

namespace Text

theorem Ranges.contains_eq_false_of_apart {table other : Ranges} {n : Nat}
    (hapart : ∀ r ∈ table, ∀ s ∈ other, r.2 < s.1 ∨ s.2 < r.1) (h : table.contains n = true) :
    other.contains n = false := by
  refine Bool.eq_false_iff.2 fun hother => ?_
  obtain ⟨r, hr, hr₁, hr₂⟩ := exists_of_contains h
  obtain ⟨s, hs, hs₁, hs₂⟩ := exists_of_contains hother
  have hbetween := hapart r hr s hs
  omega

theorem isBlank_eq_false_of_contains {table : Ranges} {c : Char}
    (hapart : ∀ r ∈ table, ∀ s ∈ whitespace ++ control, r.2 < s.1 ∨ s.2 < r.1)
    (h : table.contains c.toNat = true) : isBlank c = false := by
  refine Bool.or_eq_false_iff.2 ⟨?_, ?_⟩
  · exact Ranges.contains_eq_false_of_apart
      (fun r hr s hs => hapart r hr s (List.mem_append_left _ hs)) h
  · exact Ranges.contains_eq_false_of_apart
      (fun r hr s hs => hapart r hr s (List.mem_append_right _ hs)) h

theorem isBlank_of_isAlphanumeric {c : Char} (h : isAlphanumeric c = true) :
    isBlank c = false := by
  rcases Bool.or_eq_true_iff.1 h with h | h
  · exact isBlank_eq_false_of_contains (by decide +kernel) h
  · exact isBlank_eq_false_of_contains (by decide +kernel) h

def digits : Ranges := [(48, 57)]

theorem isDigit_eq (c : Char) : c.isDigit = digits.contains c.toNat := by
  simp [Char.isDigit, digits, Ranges.contains, UInt32.le_iff_toNat_le]

theorem isBlank_of_isDigit {c : Char} (h : c.isDigit = true) : isBlank c = false := by
  rw [isDigit_eq] at h
  exact isBlank_eq_false_of_contains (by decide +kernel) h

theorem isDigit_of_isAlphabetic {c : Char} (h : isAlphabetic c = true) : c.isDigit = false := by
  rw [isDigit_eq]
  exact Ranges.contains_eq_false_of_apart (by decide +kernel) h

end Text

namespace Lexeme

theorem isBlank_of_mem_numeral {cs : List Char} {c : Char} (h : c ∈ numeral cs) :
    Text.isBlank c = false := by
  have hdigits {xs : List Char} (h : c ∈ xs.takeWhile Char.isDigit) : Text.isBlank c = false :=
    Text.isBlank_of_isDigit (List.mem_takeWhile_imp h)
  unfold numeral at h
  split at h
  · next rest hrest =>
    rcases List.mem_append.1 h with h | h
    · exact hdigits h
    · rcases List.mem_cons.1 h with rfl | h
      · decide
      · exact hdigits h
  · exact hdigits h

theorem isSome_ofSymbol?_symbol {cs : List Char} (h : symbol cs ≠ []) :
    (TokenKind.ofSymbol? (symbol cs)).isSome := by
  unfold symbol at h ⊢
  split
  · assumption
  · next hpair =>
    rw [if_neg hpair] at h
    split
    · assumption
    · next hsingle => exact absurd (if_neg hsingle) h

theorem isBlank_of_mem_symbol {cs : List Char} {c : Char} (h : c ∈ symbol cs) :
    Text.isBlank c = false := by
  obtain ⟨kind, hkind⟩ :=
    Option.isSome_iff_exists.1 (isSome_ofSymbol?_symbol (List.ne_nil_of_mem h))
  have hall : (TokenKind.symbols.all fun entry => entry.1.all fun c => !Text.isBlank c) = true := by
    decide +kernel
  have hentry := List.all_eq_true.1 hall _ (TokenKind.ofSymbol?_eq_some_iff.1 hkind)
  simpa using List.all_eq_true.1 hentry c h

theorem isBlank_of_mem_longest {cs : List Char} {c : Char} (h : c ∈ longest cs) :
    Text.isBlank c = false := by
  cases cs with
  | nil => cases h
  | cons d rest =>
    simp only [longest] at h
    split at h
    · exact isBlank_of_mem_numeral h
    · split at h
      · next halphabetic =>
        have halphanumeric : Text.isAlphanumeric c = true := by
          rcases List.mem_cons.1 h with rfl | h
          · rw [Text.isAlphanumeric, halphabetic, Bool.true_or]
          · exact List.mem_takeWhile_imp h
        exact Text.isBlank_of_isAlphanumeric halphanumeric
      · exact isBlank_of_mem_symbol h

end Lexeme

namespace Piece

def WellFormed : Piece → Prop
  | blank c => Text.isBlank c = true
  | lexeme text => text ≠ [] ∧ ∀ c ∈ text, Text.isBlank c = false
  | stray c => Text.isBlank c = false

theorem wellFormed_of_mem_pieces {cs : List Char} {piece : Piece} (h : piece ∈ pieces cs) :
    piece.WellFormed := by
  induction cs using pieces_induction with
  | nil =>
    rw [pieces_nil] at h
    cases h
  | blank c cs hblank ih =>
    rw [pieces_blank hblank] at h
    rcases List.mem_cons.1 h with rfl | h
    · exact hblank
    · exact ih h
  | stray c cs hblank hlongest ih =>
    rw [pieces_of_longest_eq_nil hblank hlongest] at h
    rcases List.mem_cons.1 h with rfl | h
    · exact hblank
    · exact ih h
  | lexeme c more tail hblank hlongest ih =>
    rw [pieces_eq_lexeme hblank hlongest] at h
    rcases List.mem_cons.1 h with rfl | h
    · refine ⟨List.cons_ne_nil _ _, fun d hd => ?_⟩
      rw [← hlongest] at hd
      exact Lexeme.isBlank_of_mem_longest hd
    · exact ih h

def claims : Piece → Nat
  | blank _ => 0
  | lexeme _ | stray _ => 1

theorem claims_eq {piece : Piece} (h : piece.WellFormed) {c : Char} (hc : c ∈ piece.chars) :
    piece.claims = if Text.isBlank c then 0 else 1 := by
  cases piece with
  | blank d =>
    obtain rfl : c = d := List.mem_singleton.1 hc
    have hblank : Text.isBlank c = true := h
    rw [hblank, if_pos rfl]
    rfl
  | lexeme text =>
    have hblank : Text.isBlank c = false := h.2 c hc
    rw [hblank, if_neg Bool.false_ne_true]
    rfl
  | stray d =>
    obtain rfl : c = d := List.mem_singleton.1 hc
    have hblank : Text.isBlank c = false := h
    rw [hblank, if_neg Bool.false_ne_true]
    rfl

end Piece

namespace Span

def covers (s : Span) (i : Nat) : Bool := s.start.index ≤ i && i < s.stop.index

def slice (s : Span) (cs : List Char) : List Char := (cs.take s.stop.index).drop s.start.index

def along (p : Position) (cs : List Char) : Span := ⟨p, p.advanceBy cs⟩

theorem covers_along {p : Position} {cs : List Char} {i : Nat} :
    (along p cs).covers i = true ↔ p.index ≤ i ∧ i < p.index + cs.length := by
  have hstop : (along p cs).stop.index = p.index + cs.length := Position.index_advanceBy ..
  rw [covers, hstop, Bool.and_eq_true, decide_eq_true_iff, decide_eq_true_iff]
  exact Iff.rfl

theorem slice_along {p : Position} {before : List Char} (hp : p.index = before.length)
    (cs after : List Char) : (along p cs).slice (before ++ (cs ++ after)) = cs := by
  have hstop : (along p cs).stop.index = (before ++ cs).length := by
    rw [List.length_append, ← hp]
    exact Position.index_advanceBy ..
  have hstart : (along p cs).start.index = before.length := hp
  rw [slice, hstop, hstart, ← List.append_assoc, List.take_left, List.drop_left]

end Span

namespace Lexed

/-- How many tokens and diagnostics lay claim to the character at the index. -/
def coverage (l : Lexed) (i : Nat) : Nat :=
  l.tokens.countP (·.span.covers i) + l.diagnostics.countP (·.span.covers i)

theorem span_strayDiagnostic (c : Char) (span : Span) : (strayDiagnostic c span).span = span := by
  unfold strayDiagnostic
  split <;> rfl

theorem coverage_cons (p : Position) (piece : Piece) (ps : List Piece) (i : Nat) :
    coverage (ofPieces p (piece :: ps)) i =
      (if (Span.along p piece.chars).covers i then piece.claims else 0) +
        coverage (ofPieces (p.advanceBy piece.chars) ps) i := by
  unfold coverage
  cases piece with
  | blank c =>
    rw [Piece.claims, ite_self, Nat.zero_add]
    rfl
  | lexeme text =>
    rw [ofPieces, List.countP_cons, Nat.add_right_comm, Nat.add_comm]
    rfl
  | stray c =>
    rw [ofPieces, List.countP_cons, span_strayDiagnostic, ← Nat.add_assoc, Nat.add_comm]
    rfl

theorem coverage_of_lt {p : Position} {ps : List Piece} {i : Nat} (h : i < p.index) :
    coverage (ofPieces p ps) i = 0 := by
  induction ps generalizing p with
  | nil =>
    have hmark : (Token.endOfInput p).span.covers i = false := by
      refine Bool.and_eq_false_iff.2 (.inl (decide_eq_false ?_))
      exact Nat.not_le_of_lt h
    simp [coverage, ofPieces, hmark]
  | cons piece ps ih =>
    have hfirst : ¬ (Span.along p piece.chars).covers i = true := by
      rw [Span.covers_along]
      omega
    have hlater : i < (p.advanceBy piece.chars).index := by
      rw [Position.index_advanceBy]
      omega
    rw [coverage_cons, if_neg hfirst, ih hlater]

theorem coverage_ofPieces {p : Position} {ps : List Piece}
    (hps : ∀ piece ∈ ps, piece.WellFormed) {i : Nat} (hi : i < (textOf ps).length) :
    coverage (ofPieces p ps) (p.index + i) = if Text.isBlank (textOf ps)[i] then 0 else 1 := by
  induction ps generalizing p i with
  | nil => exact absurd hi (Nat.not_lt_zero i)
  | cons piece ps ih =>
    obtain ⟨hpiece, hps⟩ := List.forall_mem_cons.1 hps
    have htext : textOf (piece :: ps) = piece.chars ++ textOf ps := rfl
    have hafter : (p.advanceBy piece.chars).index = p.index + piece.chars.length :=
      Position.index_advanceBy ..
    simp only [htext, List.length_append] at hi ⊢
    rw [coverage_cons]
    by_cases hin : i < piece.chars.length
    · -- the character is one of this piece, and all later ones start behind it
      have hcovers : (Span.along p piece.chars).covers (p.index + i) = true := by
        rw [Span.covers_along]
        omega
      have hlater : coverage (ofPieces (p.advanceBy piece.chars) ps) (p.index + i) = 0 :=
        coverage_of_lt (by omega)
      rw [if_pos hcovers, hlater, Nat.add_zero, List.getElem_append_left hin]
      exact Piece.claims_eq hpiece (List.getElem_mem hin)
    · have hcovers : ¬ (Span.along p piece.chars).covers (p.index + i) = true := by
        rw [Span.covers_along]
        omega
      have hindex : p.index + i = (p.advanceBy piece.chars).index + (i - piece.chars.length) := by
        omega
      rw [if_neg hcovers, Nat.zero_add, List.getElem_append_right (Nat.le_of_not_lt hin), hindex]
      exact ih hps (by omega)

theorem exists_of_mem_words {p : Position} {ps : List Piece} {t : Token} (h : t ∈ words p ps) :
    ∃ before text after, ps = before ++ .lexeme text :: after ∧
      t = .ofText text (.along (p.advanceBy (textOf before)) text) := by
  induction ps generalizing p with
  | nil => cases h
  | cons piece ps ih =>
    have hlater (h : t ∈ words (p.advanceBy piece.chars) ps) :
        ∃ before text after, piece :: ps = before ++ .lexeme text :: after ∧
          t = .ofText text (.along (p.advanceBy (textOf before)) text) := by
      obtain ⟨before, text, after, rfl, rfl⟩ := ih h
      refine ⟨piece :: before, text, after, rfl, ?_⟩
      rw [advanceBy_textOf]
    cases piece with
    | lexeme text =>
      rcases List.mem_cons.1 h with rfl | h
      · exact ⟨[], text, ps, rfl, rfl⟩
      · exact hlater h
    | blank c | stray c => exact hlater h

theorem exists_of_mem_diagnostics {p : Position} {ps : List Piece} {d : Diagnostic}
    (h : d ∈ (ofPieces p ps).diagnostics) :
    ∃ before c after, ps = before ++ .stray c :: after ∧
      d = strayDiagnostic c (.along (p.advanceBy (textOf before)) [c]) := by
  induction ps generalizing p with
  | nil => cases h
  | cons piece ps ih =>
    have hlater (h : d ∈ (ofPieces (p.advanceBy piece.chars) ps).diagnostics) :
        ∃ before c after, piece :: ps = before ++ .stray c :: after ∧
          d = strayDiagnostic c (.along (p.advanceBy (textOf before)) [c]) := by
      obtain ⟨before, c, after, rfl, rfl⟩ := ih h
      refine ⟨piece :: before, c, after, rfl, ?_⟩
      rw [advanceBy_textOf]
    cases piece with
    | stray c =>
      rcases List.mem_cons.1 h with rfl | h
      · exact ⟨[], c, ps, rfl, rfl⟩
      · exact hlater h
    | blank c | lexeme text => exact hlater h

theorem textOf_append_cons (before : List Piece) (piece : Piece) (after : List Piece) :
    textOf (before ++ piece :: after) = textOf before ++ (piece.chars ++ textOf after) := by
  simp [textOf]

theorem textOf_pieces {cs : List Char} {before after : List Piece} {piece : Piece}
    (h : pieces cs = before ++ piece :: after) :
    cs = textOf before ++ (piece.chars ++ textOf after) := by
  rw [← textOf_append_cons, ← h]
  exact (flatten_pieces cs).symm

theorem bounds_of_mem_words {p : Position} {ps : List Piece}
    (hps : ∀ piece ∈ ps, piece.WellFormed) {t : Token} (h : t ∈ words p ps) :
    p.index ≤ t.span.start.index ∧ t.span.start.index < t.span.stop.index ∧
      t.span.stop.index ≤ p.index + (textOf ps).length := by
  obtain ⟨before, text, after, rfl, rfl⟩ := exists_of_mem_words h
  have hne : text ≠ [] := (hps (.lexeme text) (by simp)).1
  have hlength : 0 < text.length := List.length_pos_iff.2 hne
  have hstart : (p.advanceBy (textOf before)).index = p.index + (textOf before).length :=
    Position.index_advanceBy ..
  have hstop : ((p.advanceBy (textOf before)).advanceBy text).index =
      (p.advanceBy (textOf before)).index + text.length := Position.index_advanceBy ..
  simp only [Token.ofText, Span.along, textOf_append_cons, List.length_append, Piece.chars]
  omega

theorem bounds_of_mem_diagnostics {p : Position} {ps : List Piece} {d : Diagnostic}
    (h : d ∈ (ofPieces p ps).diagnostics) :
    p.index ≤ d.span.start.index ∧ d.span.stop.index = d.span.start.index + 1 ∧
      d.span.stop.index ≤ p.index + (textOf ps).length := by
  obtain ⟨before, c, after, rfl, rfl⟩ := exists_of_mem_diagnostics h
  have hstart : (p.advanceBy (textOf before)).index = p.index + (textOf before).length :=
    Position.index_advanceBy ..
  have hstop : ((p.advanceBy (textOf before)).advanceBy [c]).index =
      (p.advanceBy (textOf before)).index + 1 := Position.index_advance ..
  simp only [span_strayDiagnostic, Span.along, textOf_append_cons, List.length_append, Piece.chars,
    List.length_singleton]
  omega

theorem pairwise_words {p : Position} {ps : List Piece} (hps : ∀ piece ∈ ps, piece.WellFormed) :
    (words p ps).Pairwise fun a b =>
      a.span.start.index < b.span.start.index ∧ a.span.stop.index ≤ b.span.start.index := by
  induction ps generalizing p with
  | nil => exact .nil
  | cons piece ps ih =>
    obtain ⟨hpiece, hrest⟩ := List.forall_mem_cons.1 hps
    have hlater := ih (p := p.advanceBy piece.chars) hrest
    cases piece with
    | blank c | stray c => exact hlater
    | lexeme text =>
      refine List.pairwise_cons.2 ⟨fun t ht => ?_, hlater⟩
      have hbehind : (p.advanceBy text).index ≤ t.span.start.index :=
        (bounds_of_mem_words hrest ht).1
      have hindex : (p.advanceBy text).index = p.index + text.length :=
        Position.index_advanceBy ..
      have hlength : 0 < text.length := List.length_pos_iff.2 hpiece.1
      have hstart : p.index < t.span.start.index := by omega
      exact ⟨hstart, hbehind⟩

theorem pairwise_diagnostics {p : Position} {ps : List Piece} :
    (ofPieces p ps).diagnostics.Pairwise fun a b => a.span.start.index < b.span.start.index := by
  induction ps generalizing p with
  | nil => exact .nil
  | cons piece ps ih =>
    have hlater := ih (p := p.advanceBy piece.chars)
    cases piece with
    | blank c | lexeme text => exact hlater
    | stray c =>
      refine List.pairwise_cons.2 ⟨fun d hd => ?_, hlater⟩
      have hbehind : (p.advance c).index ≤ d.span.start.index := (bounds_of_mem_diagnostics hd).1
      rw [Position.index_advance] at hbehind
      rw [span_strayDiagnostic]
      exact hbehind

theorem pairwise_tokens {p : Position} {ps : List Piece} (hps : ∀ piece ∈ ps, piece.WellFormed) :
    (ofPieces p ps).tokens.Pairwise fun a b =>
      a.span.start.index < b.span.start.index ∧ a.span.stop.index ≤ b.span.start.index := by
  rw [tokens_ofPieces]
  refine List.pairwise_append.2 ⟨pairwise_words hps, List.pairwise_singleton _ _, ?_⟩
  intro t ht mark hmark
  obtain rfl := List.mem_singleton.1 hmark
  obtain ⟨-, hlt, hle⟩ := bounds_of_mem_words hps ht
  have hend : (Token.endOfInput (p.advanceBy (textOf ps))).span.start.index =
      p.index + (textOf ps).length := Position.index_advanceBy ..
  rw [hend]
  exact ⟨Nat.lt_of_lt_of_le hlt hle, hle⟩

theorem text_of_mem_words {source : String} {cs : List Char} {t : Token}
    (h : t ∈ words (.start source) (pieces cs)) :
    t.text ≠ "" ∧ t.text.toList = t.span.slice cs := by
  obtain ⟨before, text, after, hpieces, rfl⟩ := exists_of_mem_words h
  have hmem : Piece.lexeme text ∈ pieces cs := by
    rw [hpieces]
    exact List.mem_append_right _ List.mem_cons_self
  have hne : text ≠ [] := (Piece.wellFormed_of_mem_pieces hmem).1
  have hcs : cs = textOf before ++ (text ++ textOf after) := textOf_pieces hpieces
  have hindex : ((Position.start source).advanceBy (textOf before)).index =
      (textOf before).length := by
    rw [Position.index_advanceBy]
    exact Nat.zero_add _
  refine ⟨fun hempty => hne ?_, ?_⟩
  · simpa [Token.ofText] using hempty
  · rw [hcs]
    exact String.toList_ofList.trans (Span.slice_along hindex text (textOf after)).symm

structure Partitions (l : Lexed) (cs : List Char) : Prop where
  /-- a character is in one token, or told about once, unless it is blank -/
  coverage_eq (i : Nat) (hi : i < cs.length) :
    l.coverage i = if Text.isBlank cs[i] then 0 else 1
  /-- what is told about is one character of the text -/
  diagnostic (d : Diagnostic) (hd : d ∈ l.diagnostics) :
    d.span.stop.index = d.span.start.index + 1 ∧ d.span.stop.index ≤ cs.length
  ordered : l.tokens.Pairwise fun a b =>
    a.span.start.index < b.span.start.index ∧ a.span.stop.index ≤ b.span.start.index
  tokens_eq : ∃ words mark, l.tokens = words ++ [mark] ∧
    (mark.kind = .endOfInput ∧ mark.text = "" ∧ mark.span.start.index = cs.length) ∧
    ∀ t ∈ words, t.kind ≠ .endOfInput ∧ t.text ≠ "" ∧ t.text.toList = t.span.slice cs

end Lexed

theorem mem_words_of_kind {source text : String} {t : Token} (h : t ∈ (lex source text).tokens)
    (hkind : t.kind ≠ .endOfInput) : t ∈ Lexed.words (.start source) (pieces text.toList) := by
  rw [lex, Lexed.tokens_ofPieces] at h
  rcases List.mem_append.1 h with h | h
  · exact h
  · obtain rfl := List.mem_singleton.1 h
    exact absurd rfl hkind

theorem pairwise_tokens_lex (source text : String) :
    (lex source text).tokens.Pairwise fun a b =>
      a.span.start.index < b.span.start.index ∧ a.span.stop.index ≤ b.span.start.index :=
  Lexed.pairwise_tokens fun _ => Piece.wellFormed_of_mem_pieces

theorem kind_of_mem_lex_diagnostics {source text : String} {d : Diagnostic}
    (h : d ∈ (lex source text).diagnostics) :
    d.kind = .illegalCharacter ∨ d.kind = .expectedCharacter := by
  obtain ⟨_, c, _, _, rfl⟩ := Lexed.exists_of_mem_diagnostics h
  unfold Lexed.strayDiagnostic
  split
  · exact .inr rfl
  · exact .inl rfl

/-- Nothing of a text is lost and nothing is made up: its tokens and its stray characters share
out all characters that are not blank, and the end of the input is marked once, at the end. -/
theorem lex_partitions (source text : String) : (lex source text).Partitions text.toList := by
  have htext : Lexed.textOf (pieces text.toList) = text.toList := flatten_pieces _
  have hstart : (Position.start source).index = 0 := rfl
  have hwell : ∀ piece ∈ pieces text.toList, piece.WellFormed :=
    fun _ => Piece.wellFormed_of_mem_pieces
  have htokens := Lexed.tokens_ofPieces (.start source) (pieces text.toList)
  have hend : ((Position.start source).advanceBy text.toList).index = text.toList.length := by
    rw [Position.index_advanceBy, hstart, Nat.zero_add]
  rw [htext] at htokens
  refine ⟨fun i hi => ?_, fun d hd => ?_, ?_, _, _, htokens, ⟨rfl, rfl, hend⟩, fun t ht => ?_⟩
  · have hcoverage := Lexed.coverage_ofPieces (p := .start source) hwell (htext ▸ hi)
    simp only [htext, hstart, Nat.zero_add] at hcoverage
    exact hcoverage
  · have hbounds := (Lexed.bounds_of_mem_diagnostics hd).2
    rwa [htext, hstart, Nat.zero_add] at hbounds
  · exact pairwise_tokens_lex source text
  · exact ⟨Lexed.isProper_words ht, Lexed.text_of_mem_words ht⟩

end Scriptlet
