import Scriptlet.Token.Basic

/-! Operators and how tightly they bind. All operators of one tier are left-associative. -/

namespace Scriptlet

inductive BinaryOp
  | add | subtract | multiply | divide | power
  | equal | notEqual | less | lessEqual | greater | greaterEqual
  | and | or
  deriving DecidableEq

inductive UnaryOp
  | plus | negate | not
  deriving DecidableEq

/-- From the loosest to the tightest; a primary is an operand of every tier. -/
inductive Tier
  | logical | comparison | term | factor | power | primary
  deriving DecidableEq

namespace BinaryOp

def all : List BinaryOp :=
  [add, subtract, multiply, divide, power, equal, notEqual, less, lessEqual, greater,
    greaterEqual, and, or]

def symbol : BinaryOp → String
  | add => "+"
  | subtract => "-"
  | multiply => "*"
  | divide => "/"
  | power => "^"
  | equal => "=="
  | notEqual => "!="
  | less => "<"
  | lessEqual => "<="
  | greater => ">"
  | greaterEqual => ">="
  | and => "and"
  | or => "or"

def tier : BinaryOp → Tier
  | add | subtract => .term
  | multiply | divide => .factor
  | power => .power
  | equal | notEqual | less | lessEqual | greater | greaterEqual => .comparison
  | and | or => .logical

def ofToken? (t : Token) : Option BinaryOp :=
  match t.kind with
  | .plus => some add
  | .minus => some subtract
  | .star => some multiply
  | .slash => some divide
  | .caret => some power
  | .equalEqual => some equal
  | .bangEqual => some notEqual
  | .less => some less
  | .lessEqual => some lessEqual
  | .greater => some greater
  | .greaterEqual => some greaterEqual
  | _ =>
    match t.keyword? with
    | some .andWord => some and
    | some .orWord => some or
    | _ => none

end BinaryOp

namespace UnaryOp

def all : List UnaryOp := [plus, negate, not]

def symbol : UnaryOp → String
  | plus => "+"
  | negate => "-"
  | not => "not"

end UnaryOp

namespace Tier

def operand : Tier → Tier
  | logical => comparison
  | comparison => term
  | term => factor
  | factor => power
  | power => primary
  | primary => primary

def height : Tier → Nat
  | logical => 5
  | comparison => 4
  | term => 3
  | factor => 2
  | power => 1
  | primary => 0

theorem height_operand_lt {t : Tier} (h : t ≠ primary) : t.operand.height < t.height := by
  cases t <;> first | decide | exact absurd rfl h

def operator? (t : Tier) (token : Token) : Option BinaryOp :=
  match BinaryOp.ofToken? token with
  | none => none
  | some op => if op.tier = t then some op else none

end Tier
end Scriptlet
