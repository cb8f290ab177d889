import Scriptlet.Proofs.Syntax.Relocation
import Scriptlet.Proofs.Text.LeadingRun
import Scriptlet.Token.Stream

/-! One text behind another. A lexeme that more text follows does not change with what comes
later, and neither does a semicolon, so two texts fall apart into the pieces of both if the first
ends with a blank or a semicolon. Behind the first text every place of the second is moved. -/

namespace Scriptlet

namespace Lexeme

theorem numeral_append {cs : List Char} (h : (numeral cs).length < cs.length) (ys : List Char) :
    numeral (cs ++ ys) = numeral cs := by
  have hsplit := List.takeWhile_append_dropWhile (p := Char.isDigit) (l := cs)
  rcases hrest : cs.dropWhile Char.isDigit with _ | ⟨d, rest⟩
  · rw [hrest, List.append_nil] at hsplit
    rw [numeral, hrest, hsplit] at h
    exact absurd h (Nat.lt_irrefl _)
  have hwhole : (cs.takeWhile Char.isDigit).length < cs.length := by
    have hlength := congrArg List.length hsplit
    rw [List.length_append, hrest, List.length_cons] at hlength
    omega
  have hdrop : (cs ++ ys).dropWhile Char.isDigit = d :: (rest ++ ys) := by
    rw [List.dropWhile_append, hrest]
    rfl
  unfold numeral at h ⊢
  rw [hdrop, LeadingRun.takeWhile_append_of_lt hwhole]
  rw [hrest] at h ⊢
  split
  · next htail =>
    obtain ⟨rfl, rfl⟩ := List.cons.inj htail
    have hlt : (rest.takeWhile Char.isDigit).length < rest.length := by
      have hlength := congrArg List.length hsplit
      simp only [hrest, List.length_append, List.length_cons] at h hlength
      omega
    rw [LeadingRun.takeWhile_append_of_lt hlt]
    rfl
  · next hne =>
    split
    · next htail =>
      obtain ⟨rfl, rfl⟩ := List.cons.inj htail
      exact absurd rfl (hne _)
    · rfl

theorem symbol_append {c d : Char} (cs ys : List Char) :
    symbol (c :: d :: cs ++ ys) = symbol (c :: d :: cs) := rfl

theorem longest_append {cs : List Char} (hne : longest cs ≠ [])
    (hlt : (longest cs).length < cs.length) (ys : List Char) : longest (cs ++ ys) = longest cs := by
  obtain _ | ⟨c, rest⟩ := cs
  · exact absurd rfl hne
  simp only [longest, List.cons_append] at hne hlt ⊢
  split
  · next hdigit =>
    rw [if_pos hdigit] at hlt
    exact numeral_append hlt ys
  · next hdigit =>
    rw [if_neg hdigit] at hne hlt
    split
    · next halphabetic =>
      rw [if_pos halphabetic, List.length_cons, List.length_cons] at hlt
      rw [LeadingRun.takeWhile_append_of_lt (Nat.lt_of_succ_lt_succ hlt)]
    · next halphabetic =>
      rw [if_neg halphabetic] at hne hlt
      obtain _ | ⟨d, rest⟩ := rest
      · have hlength := List.length_pos_iff.2 hne
        rw [List.length_singleton] at hlt
        omega
      · exact symbol_append rest ys

theorem longest_semicolon (ys : List Char) : longest (';' :: ys) = [';'] := by
  have hdigit : ';'.isDigit = false := by decide
  have halphabetic : Text.isAlphabetic ';' = false := by decide
  simp only [longest, hdigit, halphabetic, Bool.false_eq_true, if_false]
  cases ys with
  | nil => rfl
  | cons y ys => rfl

end Lexeme

namespace Piece

/-- No text behind the piece can become part of it. -/
def isClosed : Piece → Bool
  | blank _ => true
  | lexeme text => text = [';']
  | stray _ => false

def isStray : Piece → Bool
  | stray _ => true
  | _ => false

end Piece

theorem pieces_single {c : Char} {cs : List Char} (hblank : Text.isBlank c = false)
    (h : Lexeme.longest (c :: cs) = [c]) : pieces (c :: cs) = .lexeme [c] :: pieces cs := by
  show pieces (c :: ([] ++ cs)) = .lexeme [c] :: pieces cs
  exact pieces_eq_lexeme hblank h

theorem pieces_semicolon (cs : List Char) : pieces (';' :: cs) = .lexeme [';'] :: pieces cs :=
  pieces_single (by decide) (Lexeme.longest_semicolon cs)

theorem pieces_append {xs : List Char} (hstray : ∀ piece ∈ pieces xs, piece.isStray = false)
    (hlast : ∀ piece ∈ (pieces xs).getLast?, piece.isClosed = true) (ys : List Char) :
    pieces (xs ++ ys) = pieces xs ++ pieces ys := by
  have getLast?_of_tail {x piece : Piece} {rest : List Piece} (h : piece ∈ rest.getLast?) :
      piece ∈ (x :: rest).getLast? := by
    rw [List.getLast?_cons, h]
    rfl
  induction xs using pieces_induction with
  | nil => rw [pieces_nil, List.nil_append, List.nil_append]
  | blank c cs hblank ih =>
    rw [pieces_blank hblank] at hstray hlast
    have hrest := ih (fun _ h => hstray _ (List.mem_cons_of_mem _ h))
      (fun _ h => hlast _ (getLast?_of_tail h))
    rw [List.cons_append, pieces_blank hblank, pieces_blank hblank, hrest, List.cons_append]
  | stray c cs hblank hlongest =>
    rw [pieces_of_longest_eq_nil hblank hlongest] at hstray
    exact nomatch hstray _ List.mem_cons_self
  | lexeme c more tail hblank hlongest ih =>
    rw [pieces_eq_lexeme hblank hlongest] at hstray hlast
    have hrest := ih (fun _ h => hstray _ (List.mem_cons_of_mem _ h))
      (fun _ h => hlast _ (getLast?_of_tail h))
    -- behind the lexeme there is either more of the first text, or it is the semicolon
    have hkeeps : Lexeme.longest (c :: (more ++ (tail ++ ys))) = c :: more := by
      obtain _ | ⟨d, tail⟩ := tail
      · have hclosed := hlast (.lexeme (c :: more)) (by rw [pieces_nil]; rfl)
        obtain ⟨rfl, rfl⟩ := List.cons.inj (of_decide_eq_true hclosed)
        exact Lexeme.longest_semicolon _
      · have happend := Lexeme.longest_append (by rw [hlongest]; exact List.cons_ne_nil _ _)
          (by rw [hlongest]; simp) ys
        simpa [hlongest] using happend
    rw [List.cons_append, List.append_assoc, pieces_eq_lexeme hblank hkeeps,
      pieces_eq_lexeme hblank hlongest, hrest, List.cons_append]

namespace TokenKind

def symbols : List (List Char × TokenKind) :=
  [("(", TokenKind.leftParen), (")", .rightParen), ("\x7b", .leftBrace), ("\x7d", .rightBrace),
    (",", .comma), (";", .semicolon), ("*", .star), ("/", .slash), ("^", .caret), ("+", .plus),
    ("++", .plusPlus), ("-", .minus), ("--", .minusMinus), ("=", .equal), ("==", .equalEqual),
    ("=>", .arrow), ("<", .less), ("<=", .lessEqual), (">", .greater), (">=", .greaterEqual),
    ("!=", .bangEqual)].map fun (text, kind) => (text.toList, kind)

theorem ofSymbol?_eq_some_iff {w : List Char} {kind : TokenKind} :
    ofSymbol? w = some kind ↔ (w, kind) ∈ symbols := by
  constructor
  · intro h
    unfold ofSymbol? at h
    split at h <;> cases h <;> decide
  · have hall : ∀ entry ∈ symbols, ofSymbol? entry.1 = some entry.2 := by decide
    exact fun h => hall _ h

theorem of_ofSymbol? {text : List Char} {k : TokenKind} (h : ofSymbol? text = some k) :
    k ≠ .endOfInput ∧ (k = .semicolon → text = [';']) := by
  have hall : ∀ entry ∈ symbols,
      entry.2 ≠ .endOfInput ∧ (entry.2 = .semicolon → entry.1 = [';']) := by decide
  exact hall _ (ofSymbol?_eq_some_iff.1 h)

theorem of_ofText {text : List Char} {k : TokenKind} (h : ofText text = k) :
    k ≠ .endOfInput ∧ (k = .semicolon → text = [';']) := by
  unfold ofText at h
  split at h
  · next kind hkind => exact h ▸ of_ofSymbol? hkind
  · subst h
    refine ⟨?_, fun h => ?_⟩
    · split
      · decide
      · split <;> decide
    · split at h
      · cases h
      · split at h <;> cases h

end TokenKind

namespace Position

/-- A place of a text that is put behind another text, which ends at `base`. -/
def past (base p : Position) : Position :=
  if p.line = 0 then ⟨base.source, base.index + p.index, base.line, base.column + p.column⟩
  else ⟨base.source, base.index + p.index, base.line + p.line, p.column⟩

theorem past_start (base : Position) (source : String) : base.past (.start source) = base := rfl

theorem past_advance (base p : Position) (c : Char) :
    base.past (p.advance c) = (base.past p).advance c := by
  unfold past advance
  by_cases hc : c = '\n' <;> by_cases hp : p.line = 0 <;> simp [hc, hp, Nat.add_assoc]

theorem past_advanceBy (base p : Position) (cs : List Char) :
    base.past (p.advanceBy cs) = (base.past p).advanceBy cs := by
  induction cs generalizing p with
  | nil => rfl
  | cons c cs ih =>
    have h := ih (p.advance c)
    rwa [past_advance] at h

end Position

namespace Lexed

def words (p : Position) : List Piece → List Token
  | [] => []
  | piece :: rest =>
    let after := p.advanceBy piece.chars
    match piece with
    | .lexeme text => .ofText text ⟨p, after⟩ :: words after rest
    | _ => words after rest

def textOf (ps : List Piece) : List Char := (ps.map Piece.chars).flatten

theorem advanceBy_textOf (p : Position) (piece : Piece) (ps : List Piece) :
    p.advanceBy (textOf (piece :: ps)) = (p.advanceBy piece.chars).advanceBy (textOf ps) := by
  rw [← Position.advanceBy_append]
  rfl

theorem tokens_ofPieces (p : Position) (ps : List Piece) :
    (ofPieces p ps).tokens = words p ps ++ [.endOfInput (p.advanceBy (textOf ps))] := by
  induction ps generalizing p with
  | nil => rfl
  | cons piece ps ih =>
    rw [advanceBy_textOf]
    cases piece with
    | lexeme text => exact congrArg (_ :: ·) (ih _)
    | blank c | stray c => exact ih _

theorem diagnostics_ofPieces {p : Position} {ps : List Piece} :
    (ofPieces p ps).diagnostics = [] ↔ ∀ piece ∈ ps, piece.isStray = false := by
  induction ps generalizing p with
  | nil => simp [ofPieces]
  | cons piece ps ih => cases piece <;> simp [ofPieces, Piece.isStray, ih]

theorem words_append (p : Position) (xs ys : List Piece) :
    words p (xs ++ ys) = words p xs ++ words (p.advanceBy (textOf xs)) ys := by
  induction xs generalizing p with
  | nil => rfl
  | cons piece xs ih =>
    rw [advanceBy_textOf]
    cases piece with
    | lexeme text => exact congrArg (_ :: ·) (ih _)
    | blank c | stray c => exact ih _

theorem words_past (base p : Position) (ps : List Piece) :
    words (base.past p) ps = (words p ps).map (Token.relocate base.past) := by
  induction ps generalizing p with
  | nil => rfl
  | cons piece ps ih =>
    have h := ih (p.advanceBy piece.chars)
    rw [Position.past_advanceBy] at h
    cases piece with
    | lexeme text =>
      simp only [words, List.map_cons, h]
      simp only [Token.relocate, Token.ofText, Span.relocate, Position.past_advanceBy]
    | blank c | stray c => exact h

theorem isProper_words {p : Position} {ps : List Piece} {t : Token} (h : t ∈ words p ps) :
    t.kind ≠ .endOfInput := by
  induction ps generalizing p with
  | nil => cases h
  | cons piece ps ih =>
    cases piece with
    | lexeme text =>
      rcases List.mem_cons.1 h with rfl | h
      · exact (TokenKind.of_ofText rfl).1
      · exact ih h
    | blank c | stray c => exact ih h

theorem isClosed_of_getLast?_words {p : Position} {ps : List Piece} {mark : Token}
    (hstray : ∀ piece ∈ ps, piece.isStray = false) (hmark : (words p ps).getLast? = some mark)
    (hkind : mark.kind = .semicolon) : ∀ piece ∈ ps.getLast?, piece.isClosed = true := by
  rcases List.eq_nil_or_concat ps with rfl | ⟨front, last, rfl⟩
  · cases hmark
  rw [List.concat_eq_append] at hstray hmark ⊢
  intro piece hpiece
  obtain rfl : last = piece := by simpa using hpiece
  cases last with
  | blank c => rfl
  | stray c => exact absurd (hstray (.stray c) (by simp)) (by simp [Piece.isStray])
  | lexeme text =>
    rw [words_append] at hmark
    obtain rfl : Token.ofText text _ = mark := by simpa [words] using hmark
    simpa [Piece.isClosed] using (TokenKind.of_ofText hkind).2 rfl

end Lexed

theorem words_pieces_append {source : String} {xs : List Char} {mark : Token}
    (hstray : ∀ piece ∈ pieces xs, piece.isStray = false)
    (hmark : (Lexed.words (.start source) (pieces xs)).getLast? = some mark)
    (hkind : mark.kind = .semicolon) (ys : List Char) :
    pieces (xs ++ ys) = pieces xs ++ pieces ys ∧
      Lexed.words (.start source) (pieces (xs ++ ys)) =
        Lexed.words (.start source) (pieces xs) ++
          (Lexed.words (.start source) (pieces ys)).map
            (Token.relocate ((Position.start source).advanceBy xs).past) := by
  have hpieces := pieces_append hstray (Lexed.isClosed_of_getLast?_words hstray hmark hkind) ys
  refine ⟨hpieces, ?_⟩
  have htext : Lexed.textOf (pieces xs) = xs := flatten_pieces xs
  rw [hpieces, Lexed.words_append, htext, ← Lexed.words_past, Position.past_start]

end Scriptlet
