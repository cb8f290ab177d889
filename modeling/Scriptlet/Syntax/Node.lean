import Scriptlet.Syntax.Operator

/-! Syntax trees. -/

namespace Scriptlet

inductive Node
  | literal (token : Token)
  | access (name : Token)
  | unary (op : UnaryOp) (operand : Node) (span : Span)
  | binary (left : Node) (op : BinaryOp) (right : Node) (span : Span)
  | group (inner : Node) (span : Span)
  | declare (name : Token) (value : Node) (span : Span)
  | branch (condition : Node) (body : List Node) (span : Span)
  | loop (condition : Node) (body : List Node) (span : Span)
  | breakLoop (span : Span)
  | continueLoop (span : Span)
  /-- stands where an expression should be -/
  | missing (span : Span)

abbrev Program := List Node

namespace Node

def span : Node → Span
  | literal token => token.span
  | access name => name.span
  | unary _ _ span => span
  | binary _ _ _ span => span
  | group _ span => span
  | declare _ _ span => span
  | branch _ _ span => span
  | loop _ _ span => span
  | breakLoop span => span
  | continueLoop span => span
  | missing span => span

def isBlock : Node → Bool
  | branch .. | loop .. => true
  | _ => false

end Node
end Scriptlet
