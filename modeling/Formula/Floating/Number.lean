import Formula.Floating.Literal
import Formula.Floating.Power
import Formula.Floating.Shortest
import Formula.Number

/-!
# Floating-point numbers as a number type

No operation on floating-point numbers fails: what exceeds the format is infinite, and what has no
value is NaN.
-/

namespace Formula.Floating

variable {F : Format}

/-- Whether a value is NaN or infinite. -/
def isSaturated (a : Floating F) : Bool :=
  !a.isFinite

instance : Number (Floating F) where
  zero := zero false
  one := ofInt 1
  isInteger := false
  ofLiteral? := ofLiteral?
  text := text
  add? a b := some (a.add b)
  sub? a b := some (a.sub b)
  mul? a b := some (a.mul b)
  neg? a := some a.neg
  quotient? a b := some (a.div b)
  remainder? a b := some (a.rem b)
  truncatedQuotient? a b := some (a.div b).trunc
  fractionalPower? a b := some (a.pow b)
  compare? := compare?
  toInt? := toInt?
  ofInt? n := some (ofInt n)
  isSaturated := isSaturated

end Formula.Floating
