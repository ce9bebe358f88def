import Formula.Failure
import Formula.Number
import Formula.Operator

/-!
# Factorials

The factorial of a natural number is multiplied up, one counter value at a time.  The loop ends when
the counter reaches the value, when a product is lost, or when the product can no longer change.
-/

namespace Formula

variable {α : Type} [Number α]

open Number

/-- The factorial of `counter`, on the way to that of a larger value. -/
structure PartialFactorial (α : Type) where
  counter : α
  product : α

/-- What one round of the loop leads to. -/
inductive PartialFactorial.Outcome (α : Type) where
  | more (state : PartialFactorial α)
  | done (product : α)
  | overflow

namespace PartialFactorial

/-- The factorial of one. -/
def start : PartialFactorial α :=
  ⟨one, one⟩

/-- One round of the loop: multiply by the next counter value, unless `value` is reached. -/
def next (value : α) (s : PartialFactorial α) : Outcome α :=
  if less s.counter value then
    match add? s.counter one with
    | none => .overflow
    | some counter =>
      match mul? s.product counter with
      | none => .overflow
      | some product => if isSaturated product then .done product else .more ⟨counter, product⟩
  else .done s.product

/-- At most `rounds` rounds of the loop. -/
def run (value : α) : Nat → PartialFactorial α → Option α
  | 0, s => some s.product
  | rounds + 1, s =>
    match s.next value with
    | .more s => run value rounds s
    | .done product => some product
    | .overflow => none

end PartialFactorial

/-- The factorial of a natural number.  Each round brings the counter one closer to the value, so
as many rounds as the value are enough. -/
def factorial (value : α) : Except Failure α :=
  match isNegative value, toInt? value with
  | false, some n =>
    match PartialFactorial.start.run value n.toNat with
    | some a => .ok a
    | none => .error (.overflow PostfixOp.factorial.spelling)
  | _, _ => .error (.outsideDomain (.factorial (text value)))

end Formula
