import Scriptlet.Token.Basic

/-! What the grammar demands at a place, and what is said when something else stands there. -/

namespace Scriptlet

namespace Token

def description (t : Token) : String :=
  if t.kind = .endOfInput then "end of input" else s!"'{t.text}'"

end Token

inductive Expectation
  | endOfBreak | endOfContinue | endOfStatement
  | declaredName | declaredEqual
  | closeGroup
  | openCondition (construct : String) | closeCondition (construct : String)
  | openBody (construct : String) | closeBody
  deriving DecidableEq

namespace Expectation

def kind : Expectation → TokenKind
  | endOfBreak | endOfContinue | endOfStatement => .semicolon
  | declaredName => .identifier
  | declaredEqual => .equal
  | closeGroup => .rightParen
  | openCondition _ => .leftParen
  | closeCondition _ => .rightParen
  | openBody _ => .leftBrace
  | closeBody => .rightBrace

def wording : Expectation → String
  | endOfBreak => "';' after 'break'"
  | endOfContinue => "';' after 'continue'"
  | endOfStatement => "';' after expression"
  | declaredName => "variable name after 'declare'"
  | declaredEqual => "'=' after variable name"
  | closeGroup => "')' after expression"
  | openCondition construct => s!"'(' after '{construct}'"
  | closeCondition construct => s!"')' after {construct} condition"
  | openBody construct => s!"'\x7b' before {construct} body"
  | closeBody => "'\x7d' after block"

def help? : Expectation → Option String
  | endOfBreak | endOfContinue | openBody _ => none
  | endOfStatement => some "Every statement must end with ';'. Example: declare x = 1;"
  | declaredName | declaredEqual =>
    some "Declarations take the form: declare name = expression;"
  | closeGroup =>
    some "Every opening parenthesis '(' must have a matching closing parenthesis ')'."
  | openCondition construct | closeCondition construct =>
    some s!"The condition must be parenthesized: {construct} (condition) \x7b ... \x7d"
  | closeBody =>
    some "Block statements must be closed with '\x7d' after the opening '\x7b'."

def diagnostic (e : Expectation) (found : Token) : Diagnostic :=
  { kind := .expectedToken
    span := found.span
    message := s!"Expected {e.wording}, found {found.description}"
    help := e.help? }

end Expectation

namespace MissingExpression

def help (found : Token) : String :=
  match found.kind with
  | .rightParen => "Found ')' without matching '('. Check for unbalanced parentheses."
  | .rightBrace => "Found '\x7d' without matching '\x7b'. Check for unbalanced braces."
  | .endOfInput => "Reached end of input while expecting an expression."
  | _ => "Expected a number, variable, parenthesized expression, 'if' or 'while' here."

def diagnostic (found : Token) : Diagnostic :=
  { kind := .expectedToken
    span := found.span
    message := s!"Expected expression, found {found.description}"
    help := some (help found) }

end MissingExpression
end Scriptlet
