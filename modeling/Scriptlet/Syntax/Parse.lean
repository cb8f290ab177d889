import Scriptlet.Syntax.Grammar
import Scriptlet.Token.Stream

/-! The program that a token list stands for. Nothing behind the first token that ends the
input is read; if there is no such token, one is supplied. -/

namespace Scriptlet

namespace Tokens

/-- The last token if it ends the input, or else one supplied right after it. -/
def final (ts : List Token) : Token :=
  match ts.getLast? with
  | none => ⟨.endOfInput, "", none, .nowhere⟩
  | some last => if last.kind = .endOfInput then last else .endOfInput last.span.stop

def peekAt (ts : List Token) (offset : Nat) : Token := ts[offset]?.getD (final ts)

def isProper (t : Token) : Bool := t.kind ≠ .endOfInput

def proper (ts : List Token) : List Token := ts.takeWhile isProper

def stop (ts : List Token) : Token := (ts.dropWhile isProper).headD (final ts)

end Tokens

structure Parsed where
  program : Program
  diagnostics : List Diagnostic

/-- What the grammar finds is added to the diagnostics given. An empty list holds not even the
end of the input and counts as a missing expression. -/
def parse (ts : List Token) (diagnostics : List Diagnostic) : Parsed :=
  match ts with
  | [] => ⟨[.missing .nowhere], diagnostics⟩
  | _ =>
    let reading := Grammar.statements (Tokens.stop ts) false (Tokens.proper ts)
    ⟨reading.value, diagnostics ++ reading.issues⟩

def parseText (source text : String) : Parsed :=
  let lexed := lex source text
  parse lexed.tokens lexed.diagnostics

end Scriptlet
