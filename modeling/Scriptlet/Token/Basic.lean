import Scriptlet.Decimal.Float
import Scriptlet.Diagnostic
import Scriptlet.Token.Kind

/-! Tokens: the words of a program, with the value that a number or a reserved word stands for
and the place where it was found. -/

namespace Scriptlet

inductive Literal
  | int (value : Int)
  | float (value : Float)
  | keyword (word : Keyword)

namespace Literal

def number? : Literal → Option Float
  | int n => some (.ofInt n)
  | float x => some x
  | keyword _ => none

def display : Literal → String
  | int n => toString n
  | float x => Decimal.floatText x
  | keyword k => k.name

def maxInt : Nat := Binary.twoTo 63 - 1

def ofNumeral (text : List Char) : Literal :=
  if '.' ∈ text then float (Decimal.ofNumeral text).toFloat
  else
    let n := Decimal.natOfDigits text
    if n ≤ maxInt then int n else float (Decimal.toFloat ⟨n, 0⟩)

def ofText? (text : List Char) : Option Literal :=
  match TokenKind.ofText text with
  | .number => some (ofNumeral text)
  | .keyword => (Keyword.ofText? (String.ofList text)).map keyword
  | _ => none

end Literal

structure Token where
  kind : TokenKind
  text : String
  literal : Option Literal
  span : Span

namespace Token

def ofText (text : List Char) (span : Span) : Token :=
  ⟨.ofText text, String.ofList text, Literal.ofText? text, span⟩

def endOfInput (p : Position) : Token := ⟨.endOfInput, "", none, .single p⟩

def keyword? (t : Token) : Option Keyword :=
  match t.kind, t.literal with
  | .keyword, some (.keyword k) => some k
  | _, _ => none

def number? (t : Token) : Option Float := t.literal.bind Literal.number?

def display (t : Token) : String :=
  match t.literal with
  | none => s!"{t.kind.name}: {t.text}"
  | some literal => s!"{t.kind.name}: {t.text} => ({literal.display})"

end Token
end Scriptlet
