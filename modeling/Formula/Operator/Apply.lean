import Formula.Operator.Bitwise
import Formula.Operator.Factorial
import Formula.Operator.Power

/-!
# What operators compute

`InfixOp.apply`, `PrefixOp.apply` and `PostfixOp.apply` give the value of an operator on operands of
any number type.  Logical operators and comparisons answer one or zero.
-/

namespace Formula

variable {α : Type} [Number α]

open Number

namespace InfixOp

/-- The result of an operation, `none` being an overflow of this operator. -/
def checked (op : InfixOp) : Option α → Except Failure α
  | some a => .ok a
  | none => .error (.overflow op.spelling)

/-- A division, refused where the divisor is zero. -/
def divided (op : InfixOp) (f : α → α → Option α) (lhs rhs : α) : Except Failure α :=
  if isZero rhs then .error .divisionByZero else op.checked (f lhs rhs)

/-- The value of an operator on its left and right operand. -/
def apply (op : InfixOp) (lhs rhs : α) : Except Failure α :=
  match op with
  | add => op.checked (add? lhs rhs)
  | subtract => op.checked (sub? lhs rhs)
  | multiply => op.checked (mul? lhs rhs)
  | divide => op.divided quotient? lhs rhs
  | remainder => op.divided remainder? lhs rhs
  | truncatedDivide => op.divided truncatedQuotient? lhs rhs
  | power => Formula.power lhs rhs
  | equal => .ok (ofBool (Number.equal lhs rhs))
  | notEqual => .ok (ofBool (!Number.equal lhs rhs))
  | less => .ok (ofBool (Number.less lhs rhs))
  | lessEqual => .ok (ofBool (Number.lessEqual lhs rhs))
  | greater => .ok (ofBool (Number.less rhs lhs))
  | greaterEqual => .ok (ofBool (Number.lessEqual rhs lhs))
  | threeWay =>
    match compare? lhs rhs with
    | some .lt => op.checked (neg? (one : α))
    | some .eq => .ok zero
    | some .gt => .ok one
    | none => .error (.outsideDomain (.unordered (text lhs) (text rhs)))
  | and => .ok (ofBool (isTruthy lhs && isTruthy rhs))
  | or => .ok (ofBool (isTruthy lhs || isTruthy rhs))
  | xor => .ok (ofBool (isTruthy lhs != isTruthy rhs))
  | bitAnd => onWords op.spelling (fun v w => .ok (v &&& w)) lhs rhs
  | bitOr => onWords op.spelling (fun v w => .ok (v ||| w)) lhs rhs
  | bitXor => onWords op.spelling (fun v w => .ok (v ^^^ w)) lhs rhs
  | shiftLeft => onWords op.spelling shiftLeftWord lhs rhs
  | shiftRight => onWords op.spelling shiftRightWord lhs rhs

end InfixOp

/-- The value of a prefix operator on its operand. -/
def PrefixOp.apply (op : PrefixOp) (a : α) : Except Failure α :=
  match op with
  | negate =>
    match neg? a with
    | some b => .ok b
    | none => .error (.overflow op.spelling)
  | not => .ok (ofBool (!isTruthy a))
  | bitNot => do ofWord op.spelling (~~~(← toWord op.spelling a))

/-- The value of a postfix operator on its operand. -/
def PostfixOp.apply (op : PostfixOp) (a : α) : Except Failure α :=
  match op with
  | factorial => Formula.factorial a

end Formula
