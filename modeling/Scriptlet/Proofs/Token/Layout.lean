import Scriptlet.Proofs.Syntax.Concatenation
import Scriptlet.Proofs.Syntax.Layout
import Scriptlet.Proofs.Token.Separation

/-! Laying a text out anew. The tokens of any text, written out in order with blank characters of
any number and kind between them, are found again as they were, and nothing in what is written is
stray. -/

namespace Scriptlet

/-- Where blank characters stand when words are written out: in front of the first word, between
any two of them, and behind the last. -/
structure Layout where
  front : List Char
  gap : Nat → List Char
  back : List Char
  front_blank : ∀ c ∈ front, Text.isBlank c = true
  gap_blank : ∀ i, ∀ c ∈ gap i, Text.isBlank c = true
  gap_ne_nil : ∀ i, gap i ≠ []
  back_blank : ∀ c ∈ back, Text.isBlank c = true

namespace Layout

def join (l : Layout) (i : Nat) : List (List Char) → List Char
  | [] => []
  | [w] => w
  | w :: v :: ws => w ++ (l.gap i ++ l.join (i + 1) (v :: ws))

def write (l : Layout) (words : List String) : String :=
  String.ofList (l.front ++ (l.join 0 (words.map String.toList) ++ l.back))

example :
    write ⟨[' '], fun _ => ['\t'], [], List.forall_mem_singleton.2 (by decide),
      fun _ => List.forall_mem_singleton.2 (by decide), fun _ => List.cons_ne_nil _ _,
      List.forall_mem_nil _⟩ ["1.", "==", "x"] = " 1.\t==\tx" := rfl

end Layout

namespace Lexeme

theorem Spaced.blanks_append {bs : List Char} (hbs : ∀ b ∈ bs, Text.isBlank b = true)
    {ws : List (List Char)} {cs : List Char} (h : Spaced ws cs) : Spaced ws (bs ++ cs) := by
  induction bs with
  | nil => exact h
  | cons b bs ih =>
    obtain ⟨hb, hbs⟩ := List.forall_mem_cons.1 hbs
    exact .blank hb (ih hbs)

theorem Spaced.cons {w bs : List Char} (hw : IsWord w) (hne : bs ≠ [])
    (hbs : ∀ b ∈ bs, Text.isBlank b = true) {ws : List (List Char)} {cs : List Char}
    (h : Spaced ws cs) : Spaced (w :: ws) (w ++ (bs ++ cs)) := by
  obtain ⟨b, bs, rfl⟩ := List.exists_cons_of_ne_nil hne
  obtain ⟨hb, hbs⟩ := List.forall_mem_cons.1 hbs
  exact .word hw hb (h.blanks_append hbs)

theorem Spaced.append_blanks {bs : List Char} (hbs : ∀ b ∈ bs, Text.isBlank b = true)
    {ws : List (List Char)} {cs : List Char} (h : Spaced ws cs) : Spaced ws (cs ++ bs) := by
  have hblanks : Spaced [] bs := by
    have hnil := Spaced.nil.blanks_append hbs
    rwa [List.append_nil] at hnil
  induction h with
  | nil => exact hblanks
  | @last w hw =>
    obtain _ | ⟨b, bs⟩ := bs
    · rw [List.append_nil]
      exact .last hw
    · have hend := Spaced.nil.cons hw (List.cons_ne_nil b bs) hbs
      rwa [List.append_nil] at hend
  | blank hb _ ih => exact .blank hb ih
  | @word w ws cs b hw hb _ ih =>
    rw [List.append_assoc]
    exact .word hw hb ih

theorem Spaced.join (l : Layout) (i : Nat) {ws : List (List Char)} (h : ∀ w ∈ ws, IsWord w) :
    Spaced ws (l.join i ws) := by
  induction ws generalizing i with
  | nil => exact .nil
  | cons w ws ih =>
    obtain ⟨hw, hws⟩ := List.forall_mem_cons.1 h
    obtain _ | ⟨v, ws⟩ := ws
    · exact .last hw
    · exact (ih (i + 1) hws).cons hw (l.gap_ne_nil i) (l.gap_blank i)

theorem Spaced.write (l : Layout) {words : List String}
    (h : ∀ w ∈ words.map String.toList, IsWord w) :
    Spaced (words.map String.toList) (l.write words).toList := by
  rw [Layout.write, String.toList_ofList]
  exact ((Spaced.join l 0 h).append_blanks l.back_blank).blanks_append l.front_blank

end Lexeme

def lexemes (text : String) : List (List Char) := (pieces text.toList).filterMap Piece.text?

theorem isWord_of_mem_lexemes {text : String} {w : List Char} (h : w ∈ lexemes text) :
    Lexeme.IsWord w := by
  obtain ⟨piece, hpiece, hw⟩ := List.mem_filterMap.1 h
  cases piece with
  | blank c | stray c => cases hw
  | lexeme text =>
    cases hw
    exact Lexeme.isWord_of_mem_pieces hpiece

theorem unplaced_lex (source text : String) :
    (lex source text).tokens.map Token.unplaced =
      (lexemes text).map (Token.ofText · .nowhere) ++ [(Token.endOfInput (.start "")).unplaced] := by
  rw [lex, Lexed.tokens_ofPieces, List.map_append, Lexed.unplaced_words]
  rfl

theorem texts_proper_lex (source text : String) :
    ((Tokens.proper (lex source text).tokens).map Token.text).map String.toList = lexemes text := by
  have htexts (ts : List Token) : ts.map Token.text = (ts.map Token.unplaced).map Token.text := by
    rw [List.map_map]
    rfl
  rw [proper_lex, htexts, Lexed.unplaced_words, List.map_map, List.map_map]
  exact (List.map_congr_left fun w _ => String.toList_ofList).trans (List.map_id _)

/-- Tokens can be laid out anew. Whatever the text, and whether it has stray characters or not, its
tokens written out with blank characters between any two of them are the tokens of what is written,
in the same order and each with its kind, its text and its literal, and nothing is told about it. -/
theorem lex_write_alike (source text source' : String) (l : Layout) :
    let relaid := l.write ((Tokens.proper (lex source text).tokens).map Token.text)
    (lex source' relaid).diagnostics = [] ∧
      List.Forall₂ Token.Alike (lex source text).tokens (lex source' relaid).tokens := by
  intro relaid
  have hspaced : Lexeme.Spaced (lexemes text) relaid.toList := by
    have hwords : ∀ w ∈ lexemes text, Lexeme.IsWord w := fun w => isWord_of_mem_lexemes
    rw [← texts_proper_lex source] at hwords ⊢
    exact .write l hwords
  obtain ⟨hstray, hcut⟩ := hspaced.cut
  have hlexemes : lexemes relaid = lexemes text := hcut
  refine ⟨Lexed.diagnostics_ofPieces.2 hstray, forall₂_alike_tokens_iff.2 ?_⟩
  rw [unplaced_lex, unplaced_lex, hlexemes]

end Scriptlet
