import Scriptlet.Syntax.Operator
import Scriptlet.Value.Basic

/-! What the operators do to values, and why they may refuse to. -/

namespace Scriptlet

inductive OperationError
  | nullOperand (op : BinaryOp)
  | typeMismatch (op : BinaryOp) (left right : ValueType)
  | notArithmetic (left right : ValueType)
  | divideByZero
  | negateNull
  | unsupportedUnary (op : UnaryOp) (type : ValueType)

namespace OperationError

def message : OperationError → String
  | nullOperand op => s!"Cannot use '{op.symbol}' with null"
  | typeMismatch op left right =>
    s!"Cannot use '{op.symbol}' with types <{left.name}> & <{right.name}>"
  | notArithmetic left right =>
    s!"Types <{left.name}> or/and <{right.name}> don't support arithmetic operations"
  | divideByZero => "Division by zero"
  | negateNull => "Cannot negate null"
  | unsupportedUnary op type => s!"Cannot apply '{op.symbol}' to type <{type.name}>"

end OperationError

namespace Value

def checkOperands (op : BinaryOp) (left right : Value) : Except OperationError Unit :=
  if left.isNull || right.isNull then .error (.nullOperand op)
  else if left.type ≠ right.type then .error (.typeMismatch op left.type right.type)
  else .ok ()

def arithmetic (op : BinaryOp) (apply : Float → Float → Float) (left right : Value) :
    Except OperationError Value := do
  checkOperands op left right
  match left, right with
  | number l, number r => .ok (number (apply l r))
  | _, _ => .error (.notArithmetic left.type right.type)

/-- A zero divisor is refused before anything is asked of the dividend. -/
def divide (left right : Value) : Except OperationError Value :=
  match right with
  | number r =>
    if r == 0.0 then .error .divideByZero else arithmetic .divide (· / ·) left (number r)
  | _ => arithmetic .divide (· / ·) left right

def compare (op : BinaryOp) (numbers : Float → Float → Bool) (booleans : Bool → Bool → Bool)
    (left right : Value) : Except OperationError Value := do
  checkOperands op left right
  match left, right with
  | number l, number r => .ok (boolean (numbers l r))
  | boolean l, boolean r => .ok (boolean (booleans l r))
  | _, _ => .error (.typeMismatch op left.type right.type)

def binary (op : BinaryOp) (left right : Value) : Except OperationError Value :=
  match op with
  | .and => .ok (boolean (left.isTrue && right.isTrue))
  | .or => .ok (boolean (left.isTrue || right.isTrue))
  | .add => arithmetic .add (· + ·) left right
  | .subtract => arithmetic .subtract (· - ·) left right
  | .multiply => arithmetic .multiply (· * ·) left right
  | .divide => divide left right
  | .power => arithmetic .power Float.pow left right
  | .equal => compare .equal (· == ·) (· == ·) left right
  | .notEqual => compare .notEqual (· != ·) (· != ·) left right
  | .less => compare .less (· < ·) (!· && ·) left right
  | .lessEqual => compare .lessEqual (· ≤ ·) (!· || ·) left right
  | .greater => compare .greater (· > ·) (· && !·) left right
  | .greaterEqual => compare .greaterEqual (· ≥ ·) (· || !·) left right

def unary (op : UnaryOp) (operand : Value) : Except OperationError Value :=
  match op, operand with
  | .plus, v => .ok v
  | _, null => .error .negateNull
  | .negate, number x => .ok (number (-x))
  | .not, boolean b => .ok (boolean !b)
  | op, v => .error (.unsupportedUnary op v.type)

end Value
end Scriptlet
