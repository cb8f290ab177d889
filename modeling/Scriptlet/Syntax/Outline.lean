import Scriptlet.Syntax.Node

/-! The outline of a program: one row for each node, a parent before its children, and the
text that shows it by indentation. -/

namespace Scriptlet

namespace Node

def kindName : Node → String
  | literal _ => "Literal"
  | access _ => "VarAccess"
  | unary .. => "Unary"
  | binary .. => "Binary"
  | group .. => "Parenthesized"
  | declare .. => "VarDeclare"
  | branch .. => "If"
  | loop .. => "While"
  | breakLoop _ => "Break"
  | continueLoop _ => "Continue"
  | missing _ => "Errored"

def detail? : Node → Option String
  | literal token => some token.text
  | access name => some name.text
  | unary op _ _ => some op.symbol
  | binary _ op _ _ => some op.symbol
  | declare name _ _ => some name.text
  | _ => none

end Node

structure OutlineRow where
  depth : Nat
  node : Node

mutual

def Node.outline (depth : Nat) : Node → List OutlineRow
  | .literal token => [⟨depth, .literal token⟩]
  | .access name => [⟨depth, .access name⟩]
  | .unary op operand span => ⟨depth, .unary op operand span⟩ :: operand.outline (depth + 1)
  | .binary left op right span =>
    ⟨depth, .binary left op right span⟩ ::
      (left.outline (depth + 1) ++ right.outline (depth + 1))
  | .group inner span => ⟨depth, .group inner span⟩ :: inner.outline (depth + 1)
  | .declare name value span => ⟨depth, .declare name value span⟩ :: value.outline (depth + 1)
  | .branch condition body span =>
    ⟨depth, .branch condition body span⟩ ::
      (condition.outline (depth + 1) ++ outlineAll (depth + 1) body)
  | .loop condition body span =>
    ⟨depth, .loop condition body span⟩ ::
      (condition.outline (depth + 1) ++ outlineAll (depth + 1) body)
  | .breakLoop span => [⟨depth, .breakLoop span⟩]
  | .continueLoop span => [⟨depth, .continueLoop span⟩]
  | .missing span => [⟨depth, .missing span⟩]

def outlineAll (depth : Nat) : List Node → List OutlineRow
  | [] => []
  | node :: rest => node.outline depth ++ outlineAll depth rest

end

namespace OutlineRow

def line (row : OutlineRow) : String :=
  let indent := String.ofList (List.replicate (2 * row.depth) ' ')
  match row.node.detail? with
  | none => s!"{indent}{row.node.kindName}\n"
  | some detail => s!"{indent}{row.node.kindName} {detail}\n"

end OutlineRow

namespace Program

def outline (p : Program) : List OutlineRow := outlineAll 0 p

def tree (p : Program) : String := String.join ((outline p).map OutlineRow.line)

end Program
end Scriptlet
