import Scriptlet.Token.Basic
import Scriptlet.Token.Lexeme

/-! The token stream of a source text. The position of each piece is the start moved over the
pieces before it. Every lexeme becomes a token, every stray character a diagnostic, and one
token marks the end of the input. -/

namespace Scriptlet

structure Lexed where
  tokens : List Token
  diagnostics : List Diagnostic

namespace Lexed

def strayDiagnostic (c : Char) (span : Span) : Diagnostic :=
  if c = '!' then
    { kind := .expectedCharacter
      span
      message := "'=' (after '!')"
      help := some "Use '!=' for inequality or 'not' for negation." }
  else { kind := .illegalCharacter, span, message := s!"'{c}'" }

def ofPieces (p : Position) : List Piece → Lexed
  | [] => ⟨[.endOfInput p], []⟩
  | piece :: rest =>
    let after := p.advanceBy piece.chars
    let later := ofPieces after rest
    match piece with
    | .blank _ => later
    | .lexeme text => { later with tokens := .ofText text ⟨p, after⟩ :: later.tokens }
    | .stray c => { later with diagnostics := strayDiagnostic c ⟨p, after⟩ :: later.diagnostics }

end Lexed

def lex (source text : String) : Lexed := .ofPieces (.start source) (pieces text.toList)

end Scriptlet
