import Formula.Failure
import Formula.Number
import Formula.Operator

/-!
# Powers

An integral exponent of at most 64 bits is worked off bit by bit, with one multiplication for each
squaring and each bit that is set; a negative one by the reciprocal of the power, which integers
truncate.  Every other exponent is left to the number type.
-/

namespace Formula

variable {α : Type} [Number α]

open Number

/-- `product` times `factor` to the power of `exponent`, if no product on the way is lost.  The
factor is not squared after the last bit, so it never exceeds the power itself. -/
def timesPower? (product factor : α) (exponent : Nat) : Option α :=
  if exponent = 0 then some product
  else do
    let product ← if exponent % 2 = 1 then mul? product factor else some product
    if exponent / 2 = 0 then some product
    else timesPower? product (← mul? factor factor) (exponent / 2)
termination_by exponent

/-- One divided by a power of an integer, truncated toward zero: only powers of 1 and -1 leave
anything. -/
def reciprocalPower (base : α) (exponent : Nat) : Except Failure α :=
  if isZero base then .error .divisionByZero
  else match toInt? base with
    | some 1 => .ok one
    | some (-1) => .ok (if exponent % 2 = 0 then one else base)
    | _ => .ok zero

/-- One divided by `power`. -/
def reciprocal (power : α) : Except Failure α :=
  if isZero power then .error .divisionByZero
  else match quotient? one power with
    | some a => .ok a
    | none => .error (.overflow InfixOp.power.spelling)

/-- `base` to the power of an integer. -/
def integralPower (base : α) (exponent : Int) : Except Failure α :=
  if exponent < 0 ∧ isInteger α then reciprocalPower base exponent.natAbs
  else match timesPower? one base exponent.natAbs with
    | none => .error (.overflow InfixOp.power.spelling)
    | some magnitude => if exponent < 0 then reciprocal magnitude else .ok magnitude

/-- `base` to the power of `exponent`. -/
def power (base exponent : α) : Except Failure α :=
  if isIntegral exponent then
    match toInt64? exponent with
    | some n => integralPower base n
    | none =>
      match fractionalPower? base exponent with
      | some a => .ok a
      | none => .error (.overflow InfixOp.power.spelling)
  else
    match fractionalPower? base exponent with
    | some a => .ok a
    | none => .error (.outsideDomain (.fractionalExponent (text exponent)))

end Formula
