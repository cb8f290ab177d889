import Scriptlet.Value.Operation

/-! Types of values and of what the operators make of them. An operation on operands that it is
typed for gives a value of its type, unless it divides by a zero. -/

namespace Scriptlet

inductive GroundType
  | number | boolean
  deriving DecidableEq

inductive Value.HasType : Value → GroundType → Prop
  | number (x : Float) : HasType (.number x) .number
  | boolean (b : Bool) : HasType (.boolean b) .boolean

def UnaryOp.resultType? : UnaryOp → GroundType → Option GroundType
  | plus, τ => some τ
  | negate, .number => some .number
  | not, .boolean => some .boolean
  | _, _ => none

def BinaryOp.resultType? (op : BinaryOp) (left right : GroundType) : Option GroundType :=
  match op with
  | add | subtract | multiply | divide | power =>
    if left = .number ∧ right = .number then some .number else none
  | equal | notEqual | less | lessEqual | greater | greaterEqual =>
    if left = right then some .boolean else none
  | and | or => some .boolean

namespace Value
variable {v l r : Value} {τ υ τ₁ τ₂ : GroundType}

theorem checkOperands_of_hasType (hl : l.HasType τ) (hr : r.HasType τ) (op : BinaryOp) :
    checkOperands op l r = .ok () := by
  cases hl <;> cases hr <;> rfl

theorem unary_of_hasType {op : UnaryOp} (hv : v.HasType τ) (h : op.resultType? τ = some υ) :
    ∃ w, unary op v = .ok w ∧ w.HasType υ := by
  cases op with
  | plus =>
    obtain rfl : τ = υ := Option.some.inj h
    exact ⟨v, rfl, hv⟩
  | negate =>
    cases hv with
    | number x =>
      obtain rfl : GroundType.number = υ := Option.some.inj h
      exact ⟨_, rfl, .number (-x)⟩
    | boolean b => exact nomatch h
  | not =>
    cases hv with
    | number x => exact nomatch h
    | boolean b =>
      obtain rfl : GroundType.boolean = υ := Option.some.inj h
      exact ⟨_, rfl, .boolean !b⟩

theorem arithmetic_of_hasType (hl : l.HasType .number) (hr : r.HasType .number) (op : BinaryOp)
    (apply : Float → Float → Float) :
    ∃ w, arithmetic op apply l r = .ok w ∧ w.HasType .number := by
  have hcheck := checkOperands_of_hasType hl hr op
  obtain ⟨x⟩ := hl
  obtain ⟨y⟩ := hr
  refine ⟨.number (apply x y), ?_, .number _⟩
  unfold arithmetic
  rw [hcheck]
  rfl

theorem compare_of_hasType (hl : l.HasType τ) (hr : r.HasType τ) (op : BinaryOp)
    (numbers : Float → Float → Bool) (booleans : Bool → Bool → Bool) :
    ∃ w, compare op numbers booleans l r = .ok w ∧ w.HasType .boolean := by
  have hcheck := checkOperands_of_hasType hl hr op
  unfold compare
  rw [hcheck]
  cases hl <;> cases hr <;> exact ⟨_, rfl, .boolean _⟩

theorem divide_of_hasType (hl : l.HasType .number) (hr : r.HasType .number) :
    (∃ w, divide l r = .ok w ∧ w.HasType .number) ∨
      ∃ x, r = .number x ∧ (x == 0.0) = true ∧ divide l r = .error .divideByZero := by
  have hquotient := arithmetic_of_hasType hl hr .divide (· / ·)
  obtain ⟨x⟩ := hr
  unfold divide
  by_cases hx : (x == 0.0) = true
  · exact .inr ⟨x, rfl, hx, if_pos hx⟩
  · simp only [if_neg hx]
    exact .inl hquotient

theorem binary_of_hasType {op : BinaryOp} (hl : l.HasType τ₁) (hr : r.HasType τ₂)
    (h : op.resultType? τ₁ τ₂ = some υ) :
    (∃ w, binary op l r = .ok w ∧ w.HasType υ) ∨
      op = .divide ∧ ∃ x, r = .number x ∧ (x == 0.0) = true ∧
        binary op l r = .error .divideByZero := by
  unfold BinaryOp.resultType? at h
  cases op with
  | add | subtract | multiply | power =>
    obtain ⟨⟨rfl, rfl⟩, rfl⟩ : (τ₁ = .number ∧ τ₂ = .number) ∧ GroundType.number = υ := by
      simpa using h
    exact .inl (arithmetic_of_hasType hl hr _ _)
  | divide =>
    obtain ⟨⟨rfl, rfl⟩, rfl⟩ : (τ₁ = .number ∧ τ₂ = .number) ∧ GroundType.number = υ := by
      simpa using h
    exact (divide_of_hasType hl hr).imp_right fun hzero => ⟨rfl, hzero⟩
  | equal | notEqual | less | lessEqual | greater | greaterEqual =>
    obtain ⟨rfl, rfl⟩ : τ₁ = τ₂ ∧ GroundType.boolean = υ := by simpa using h
    exact .inl (compare_of_hasType hl hr _ _ _)
  | and | or =>
    obtain rfl : GroundType.boolean = υ := Option.some.inj h
    exact .inl ⟨_, rfl, .boolean _⟩

end Value
end Scriptlet
