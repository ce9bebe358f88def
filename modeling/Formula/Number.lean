/-!
# Number types

`Number α` says what an evaluator needs of the values it computes with.  Each partial operation
answers `none` where its exact result has no place in `α`; a type that rounds instead, or has values
for such results, never answers `none`.

The operations below the class are derived from it: equality and order through `compare?`, truth,
and the view of integral values as 64-bit words.
-/

namespace Formula

/-- A type of numbers that formulas are evaluated in. -/
class Number (α : Type) where
  zero : α
  one : α
  /-- Whether all values are integers, so that a reciprocal is truncated. -/
  isInteger : Bool
  /-- The value of a numeric literal.  Texts without an ASCII digit are none. -/
  ofLiteral? : List Char → Option α
  /-- The text of a value in messages and results. -/
  text : α → String
  add? : α → α → Option α
  sub? : α → α → Option α
  mul? : α → α → Option α
  neg? : α → Option α
  quotient? : α → α → Option α
  /-- The remainder of the quotient truncated toward zero; it has the sign of the dividend. -/
  remainder? : α → α → Option α
  truncatedQuotient? : α → α → Option α
  /-- A power whose exponent may have a fractional part. -/
  fractionalPower? : α → α → Option α
  /-- The order of two values, `none` if they have no order. -/
  compare? : α → α → Option Ordering
  /-- The integer that a value equals, `none` if it equals no integer. -/
  toInt? : α → Option Int
  /-- The value nearest to an integer. -/
  ofInt? : Int → Option α
  /-- Whether multiplication by a number above one can no longer change a value. -/
  isSaturated : α → Bool

namespace Number

variable {α : Type} [Number α]

/-- Whether two values are equal as numbers. -/
def equal (a b : α) : Bool :=
  compare? a b == some .eq

/-- Whether `a` is ordered before `b`. -/
def less (a b : α) : Bool :=
  compare? a b == some .lt

/-- Whether `a` is ordered before `b` or equal to it. -/
def lessEqual (a b : α) : Bool :=
  less a b || equal a b

/-- Whether a value is zero, of either sign. -/
def isZero (a : α) : Bool :=
  equal a zero

/-- Whether a value is negative; a negative zero is not. -/
def isNegative (a : α) : Bool :=
  less a zero

/-- Whether a value counts as true: anything but zero. -/
def isTruthy (a : α) : Bool :=
  !isZero a

/-- One for true and zero for false. -/
def ofBool (b : Bool) : α :=
  if b then one else zero

/-- Whether a value has no fractional part and is finite. -/
def isIntegral (a : α) : Bool :=
  (toInt? a).isSome

/-- The integer that a value equals, if it fits into a signed 64-bit word. -/
def toInt64? (a : α) : Option Int :=
  (toInt? a).filter fun n => decide (-0x8000000000000000 ≤ n) && decide (n < 0x8000000000000000)

end Number

end Formula
