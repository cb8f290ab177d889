import Scriptlet.Decimal.Float

/-! The values that programs compute with. -/

namespace Scriptlet

inductive Value
  | number (x : Float)
  | boolean (b : Bool)
  | null

inductive ValueType
  | number | boolean | null
  deriving DecidableEq

namespace ValueType

def name : ValueType → String
  | number => "Number"
  | boolean => "Boolean"
  | null => "Null"

end ValueType

namespace Value

def type : Value → ValueType
  | number _ => .number
  | boolean _ => .boolean
  | null => .null

def isTrue : Value → Bool
  | boolean b => b
  | null => false
  | number _ => true

def isNull (v : Value) : Bool := v.type = .null

def supportsArithmetic (v : Value) : Bool := v.type = .number

def supportsComparison (v : Value) : Bool := !v.isNull

def display : Value → String
  | number x => Decimal.floatText x
  | boolean true => "true"
  | boolean false => "false"
  | null => "null"

end Value
end Scriptlet
