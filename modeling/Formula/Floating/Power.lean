import Formula.Floating.Exponential

/-!
# Powers with any exponent

`pow` settles zeros, infinities and NaN by their limits.  What is left is a positive number to a
finite power.  If that can be a ratio of small integers it is computed exactly, since only then can
it lie on a boundary between two roundings; every other power is an exponential of a logarithm.
-/

namespace Formula

/-- A positive natural number as an odd one times a power of two. -/
def oddPart (n : Nat) : Nat × Nat :=
  if n = 0 ∨ n % 2 = 1 then (n, 0)
  else
    let (odd, k) := oddPart (n / 2)
    (odd, k + 1)
termination_by n

/-- The root of order `2 ^ j` of `odd * 2 ^ k`, again as a number and a power of two, if it is
exact. -/
def exactRoot? : Nat → Nat → Int → Option (Nat × Int)
  | 0, odd, k => some (odd, k)
  | j + 1, odd, k =>
    let r := floorSqrt odd
    if r * r = odd ∧ k % 2 = 0 then exactRoot? j r (k / 2) else none

namespace Floating

variable {F : Format}

/-- A positive finite value as an odd number times a power of two. -/
def oddAndExponent (a : Floating F) : Nat × Int :=
  let (odd, k) := oddPart a.magnitude
  (odd, (k : Int) - F.unitBits)

/-- The value nearest to `n / d * 2 ^ exponent`. -/
def ofScaledRatio (n d : Nat) (exponent : Int) : Floating F :=
  let shift := exponent + F.unitBits
  if 0 ≤ shift then ofRatio false (n * Nat.pow 2 shift.natAbs) d
  else ofRatio false n (d * Nat.pow 2 shift.natAbs)

/-- The value nearest to `2 ^ exponent`. -/
def ofExponent (exponent : Int) : Floating F :=
  if exponent > F.maxShift then infinite false
  else if exponent < -(F.unitBits + 2 : Int) then zero false
  else ofScaledRatio 1 1 exponent

/-- The power of a positive finite value, where it is a power of two or one of few factors.  An odd
number above one raised to more than 64 has more bits than any boundary between two roundings. -/
def exactPower? (base : Floating F) (exponent : Floating F) : Option (Floating F) :=
  let (odd, k) := oddAndExponent base
  let (factor, shift) := oddAndExponent exponent
  (exactRoot? (-shift).toNat odd k).bind fun (root, k) =>
    let n : Nat := factor * Nat.pow 2 shift.toNat
    let signed : Int := if exponent.isNegative then -(n : Int) else n
    if root = 1 then some (ofExponent (k * signed))
    else if n ≤ 64 then
      some (if exponent.isNegative then ofScaledRatio 1 (Nat.pow root n) (k * signed)
        else ofScaledRatio (Nat.pow root n) 1 (k * signed))
    else none

/-- A positive finite value to the power of a finite one other than zero. -/
def positivePower (base exponent : Floating F) : Floating F :=
  match exactPower? base exponent with
  | some a => a
  | none => nearestExp fun _ =>
    (Enclosure.ln base.magnitude F.unitsPerOne).scale exponent.units F.unitsPerOne

/-- Whether a value is an odd integer. -/
def isOdd (a : Floating F) : Bool :=
  match a.toInt? with
  | some n => n % 2 == 1
  | none => false

/-- The limit of a power whose base or exponent is infinite, or whose base is zero: zero or
infinite, with a sign. -/
def limit (large negative : Bool) : Floating F :=
  if large then infinite negative else zero negative

/-- The power.  Only an odd exponent keeps the sign of a negative base, and only an integer one
gives such a base a power at all. -/
def pow (base exponent : Floating F) : Floating F :=
  if exponent.units = 0 ∧ exponent.isFinite then ofInt 1
  else if base = ofInt 1 then ofInt 1
  else match base, exponent with
    | nan, _ | _, nan => nan
    | _, infinite negative =>
      match compare? base.abs (ofInt 1) with
      | some .eq => ofInt 1
      | some .lt => limit negative false
      | _ => limit (!negative) false
    | infinite m, finite n _ _ _ => limit (!n) (m && exponent.isOdd)
    | finite m significand _ _, finite n _ _ _ =>
      if significand = 0 then limit n (m && exponent.isOdd)
      else if !m then positivePower base exponent
      else if exponent.toInt?.isNone then nan
      else
        let a := positivePower base.neg exponent
        if exponent.isOdd then a.neg else a

end Floating

end Formula
