import Scriptlet.Text.Blank
import Scriptlet.Text.Numeric
import Scriptlet.Token.Kind

/-! How a text falls apart into lexemes. At each place the longest lexeme is taken; a blank
character is passed over, and a character that starts no lexeme stands alone. Putting the
pieces together again gives the text. -/

namespace Scriptlet

namespace Lexeme

def numeral (cs : List Char) : List Char :=
  let whole := cs.takeWhile Char.isDigit
  match cs.dropWhile Char.isDigit with
  | '.' :: rest => whole ++ '.' :: rest.takeWhile Char.isDigit
  | _ => whole

def symbol (cs : List Char) : List Char :=
  if (TokenKind.ofSymbol? (cs.take 2)).isSome then cs.take 2
  else if (TokenKind.ofSymbol? (cs.take 1)).isSome then cs.take 1
  else []

def longest : List Char → List Char
  | [] => []
  | c :: rest =>
    if c.isDigit then numeral (c :: rest)
    else if Text.isAlphabetic c then c :: rest.takeWhile Text.isAlphanumeric
    else symbol (c :: rest)

theorem numeral_isPrefix (cs : List Char) : numeral cs <+: cs := by
  unfold numeral
  have hsplit := List.takeWhile_append_dropWhile (p := Char.isDigit) (l := cs)
  split
  · next rest hrest =>
    rw [hrest] at hsplit
    refine ⟨rest.dropWhile Char.isDigit, ?_⟩
    rw [List.append_assoc, List.cons_append, List.takeWhile_append_dropWhile, hsplit]
  · exact List.takeWhile_prefix _

theorem symbol_isPrefix (cs : List Char) : symbol cs <+: cs := by
  unfold symbol
  split
  · exact List.take_prefix 2 cs
  · split
    · exact List.take_prefix 1 cs
    · exact List.nil_prefix

theorem longest_isPrefix (cs : List Char) : longest cs <+: cs := by
  cases cs with
  | nil => exact List.nil_prefix
  | cons c rest =>
    simp only [longest]
    split
    · exact numeral_isPrefix _
    · split
      · exact (List.prefix_cons_inj c).2 (List.takeWhile_prefix _)
      · exact symbol_isPrefix _

end Lexeme

inductive Piece
  | blank (c : Char)
  | lexeme (text : List Char)
  | stray (c : Char)

namespace Piece

def chars : Piece → List Char
  | blank c => [c]
  | lexeme text => text
  | stray c => [c]

end Piece

def pieces (cs : List Char) : List Piece :=
  match cs with
  | [] => []
  | c :: rest =>
    if Text.isBlank c then .blank c :: pieces rest
    else
      match Lexeme.longest (c :: rest) with
      | [] => .stray c :: pieces rest
      | first :: more => .lexeme (first :: more) :: pieces (rest.drop more.length)
termination_by cs.length
decreasing_by
  all_goals simp only [List.length_cons, List.length_drop]; omega

theorem pieces_nil : pieces [] = [] := by rw [pieces]

theorem pieces_blank {c : Char} (h : Text.isBlank c = true) (cs : List Char) :
    pieces (c :: cs) = .blank c :: pieces cs := by
  rw [pieces, if_pos h]

theorem pieces_of_longest_eq_nil {c : Char} {cs : List Char} (hblank : Text.isBlank c = false)
    (h : Lexeme.longest (c :: cs) = []) : pieces (c :: cs) = .stray c :: pieces cs := by
  rw [pieces, hblank, if_neg Bool.false_ne_true, h]

theorem pieces_eq_lexeme {c : Char} {more tail : List Char} (hblank : Text.isBlank c = false)
    (h : Lexeme.longest (c :: (more ++ tail)) = c :: more) :
    pieces (c :: (more ++ tail)) = .lexeme (c :: more) :: pieces tail := by
  rw [pieces, hblank, if_neg Bool.false_ne_true, h]
  simp only [List.drop_left]

/-- A text is empty, or it is one piece and the text behind that. -/
theorem pieces_induction {P : List Char → Prop} (nil : P [])
    (blank : ∀ c cs, Text.isBlank c = true → P cs → P (c :: cs))
    (stray : ∀ c cs, Text.isBlank c = false → Lexeme.longest (c :: cs) = [] → P cs → P (c :: cs))
    (lexeme : ∀ c more tail, Text.isBlank c = false →
      Lexeme.longest (c :: (more ++ tail)) = c :: more → P tail → P (c :: (more ++ tail)))
    (cs : List Char) : P cs := by
  fun_induction pieces cs with
  | case1 => exact nil
  | case2 c rest hblank ih => exact blank c rest hblank ih
  | case3 c rest hblank hlongest ih => exact stray c rest (Bool.eq_false_iff.2 hblank) hlongest ih
  | case4 c rest hblank first more hlongest ih =>
    obtain ⟨tail, htail⟩ := Lexeme.longest_isPrefix (c :: rest)
    rw [hlongest, List.cons_append, List.cons.injEq] at htail
    obtain ⟨rfl, rfl⟩ := htail
    rw [List.drop_left] at ih
    exact lexeme first more tail (Bool.eq_false_iff.2 hblank) hlongest ih

theorem flatten_pieces (cs : List Char) : ((pieces cs).map Piece.chars).flatten = cs := by
  induction cs using pieces_induction with
  | nil => rw [pieces_nil, List.map_nil, List.flatten_nil]
  | blank c cs hblank ih =>
    rw [pieces_blank hblank, List.map_cons, List.flatten_cons, ih]
    rfl
  | stray c cs hblank hlongest ih =>
    rw [pieces_of_longest_eq_nil hblank hlongest, List.map_cons, List.flatten_cons, ih]
    rfl
  | lexeme c more tail hblank hlongest ih =>
    rw [pieces_eq_lexeme hblank hlongest, List.map_cons, List.flatten_cons, ih]
    rfl

end Scriptlet
