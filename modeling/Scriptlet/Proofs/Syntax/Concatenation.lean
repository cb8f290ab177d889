import Scriptlet.Proofs.Syntax.Clean
import Scriptlet.Proofs.Token.Concatenation

/-! One program behind another. Behind a semicolon a new statement starts, so a text that is put
behind a semicolon is read as if it stood alone, but for its places. -/

namespace Scriptlet
namespace Spelled

theorem getLast?_of_isBlock {p : Phrase} {ts : List Token} (h : Spelled p ts) :
    match p with
    | .expression n | .tier _ n =>
      n.isBlock = true → ∃ brace, ts.getLast? = some brace ∧ brace.kind = .rightBrace
    | _ => True := by
  induction h with
  | logical _ ih | operand _ _ ih => exact ih
  | block _ _ _ _ _ _ hlast =>
    intro _
    exact ⟨_, by simp [List.getLast?_cons, List.getLast?_append], hlast⟩
  | declare | negation | join | group | access | literal | signed =>
    intro hn
    cases hn
  | _ => trivial

theorem append {p : Phrase} {xs : List Token} (h : Spelled p xs) {ns : List Node} {ys : List Token}
    (hys : Spelled (.statements ns) ys) :
    match p with
    | .statements ms =>
      (∀ mark ∈ xs.getLast?, mark.kind ≠ .rightBrace) → Spelled (.statements (ms ++ ns)) (xs ++ ys)
    | _ => True := by
  induction h with
  | finished => exact fun _ => hys
  | @next m ms us vs hm _ _ ih =>
    intro hlast
    rw [List.append_assoc]
    refine .next hm (ih fun mark hmark => hlast mark ?_)
    rw [List.getLast?_append, hmark]
    rfl
  | @bare m ms us vs hm h hsign _ _ ih =>
    intro hlast
    rw [List.append_assoc]
    obtain _ | ⟨v, vs⟩ := vs
    · obtain ⟨brace, hbrace, hkind⟩ := h.getLast?_of_isBlock hm
      exact absurd hkind (hlast brace (by simpa using hbrace))
    · refine .bare hm h hsign (ih fun mark hmark => hlast mark ?_)
      rw [List.getLast?_append, hmark]
      rfl
  | _ => trivial

end Spelled

theorem lex_tokens_ne_nil (source text : String) : (lex source text).tokens ≠ [] := by
  rw [lex, Lexed.tokens_ofPieces]
  exact List.concat_ne_nil _ _

theorem proper_lex (source text : String) :
    Tokens.proper (lex source text).tokens = Lexed.words (.start source) (pieces text.toList) := by
  rw [lex, Lexed.tokens_ofPieces]
  refine Tokens.proper_append_stop (fun t ht => ?_) rfl
  simpa [Tokens.isProper] using Lexed.isProper_words ht

theorem proper_append_stop_lex (source text : String) :
    Tokens.proper (lex source text).tokens ++ [Tokens.stop (lex source text).tokens] =
      (lex source text).tokens := by
  have hproper : ∀ t ∈ Lexed.words (.start source) (pieces text.toList),
      Tokens.isProper t = true := fun t ht => by
    simpa [Tokens.isProper] using Lexed.isProper_words ht
  rw [proper_lex, lex, Lexed.tokens_ofPieces, Tokens.stop_append hproper rfl]

theorem isPrefix_parse_diagnostics (ts : List Token) (ds : List Diagnostic) :
    ds <+: (parse ts ds).diagnostics := by
  unfold parse
  split
  · exact List.prefix_rfl
  · exact List.prefix_append _ _

theorem parseText_eq_iff {source text : String} {p : Program} :
    parseText source text = ⟨p, []⟩ ↔
      (∀ piece ∈ pieces text.toList, piece.isStray = false) ∧
        Spelled (.statements p) (Lexed.words (.start source) (pieces text.toList)) := by
  have hne := lex_tokens_ne_nil source text
  have hspelled := parse_eq_iff_spelled hne (p := p) (lex source text).diagnostics
  rw [proper_lex] at hspelled
  rw [parseText, ← hspelled, ← Lexed.diagnostics_ofPieces (p := .start source), ← lex]
  constructor
  · intro h
    have hbefore :=
      isPrefix_parse_diagnostics (lex source text).tokens (lex source text).diagnostics
    rw [h, List.prefix_nil] at hbefore
    exact ⟨hbefore, by rw [h, hbefore]⟩
  · rintro ⟨hdiagnostics, h⟩
    rw [h, hdiagnostics]

theorem parseText_append {source s₁ s₂ : String} {p₁ p₂ : Program}
    (h₁ : parseText source s₁ = ⟨p₁, []⟩) (h₂ : parseText source s₂ = ⟨p₂, []⟩) {mark : Token}
    (hmark : (Tokens.proper (lex source s₁).tokens).getLast? = some mark)
    (hkind : mark.kind = .semicolon) :
    parseText source (s₁ ++ s₂) =
      ⟨p₁ ++ p₂.map (Node.relocate ((Position.start source).advanceBy s₁.toList).past), []⟩ := by
  rw [parseText_eq_iff] at h₁ h₂ ⊢
  obtain ⟨hstray₁, hspelled₁⟩ := h₁
  obtain ⟨hstray₂, hspelled₂⟩ := h₂
  rw [proper_lex] at hmark
  obtain ⟨hpieces, hwords⟩ := words_pieces_append hstray₁ hmark hkind s₂.toList
  rw [String.toList_append, hwords, hpieces]
  refine ⟨List.forall_mem_append.2 ⟨hstray₁, hstray₂⟩, hspelled₁.append (hspelled₂.relocate _) ?_⟩
  intro other hother
  obtain rfl : mark = other := Option.some.inj (hmark.symm.trans hother)
  rw [hkind]
  decide

end Scriptlet
