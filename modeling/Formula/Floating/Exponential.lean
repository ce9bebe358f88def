import Formula.Floating.Enclosure

/-!
# Exponentials and logarithms

`exp` is reduced by multiples of `ln 2` and by halving, and summed as a power series; `ln` is
reduced by powers of two and summed as an inverse hyperbolic tangent.  Arguments with an exact
result, and those beyond the range of the format, are settled first.
-/

namespace Formula

namespace Enclosure

variable {w : Nat}

/-- The inverse hyperbolic tangent of a number of magnitude at most one third. -/
def artanh (z : Enclosure w) : Enclosure w :=
  let square := z.mul z
  z.mul <| series (w / 3 + 2)
    (fun i tail => (ofFraction 1 (2 * i + 1)).add (square.mul tail)) (between 0 2)

/-- The natural logarithm of 2. -/
def ln2 : Enclosure w :=
  (artanh (ofFraction 1 3)).scale 2 1

/-- The natural logarithm of a positive fraction `n / d`, through
`ln x = 2 artanh ((x - 1) / (x + 1))` after scaling `x` to between one half and two. -/
def ln (n d : Nat) : Enclosure w :=
  let k : Int := (n.log2 : Int) - d.log2
  let n' := if k < 0 then n * Nat.pow 2 k.natAbs else n
  let d' := if k < 0 then d else d * Nat.pow 2 k.natAbs
  ((artanh (ofFraction ((n' : Int) - d') (n' + d'))).scale 2 1).add (ln2.scale k 1)

/-- The exponential of a number of magnitude at most one half. -/
def expSmall (x : Enclosure w) : Enclosure w :=
  let halvings := 8
  let y := x.scale 1 (Nat.pow 2 halvings)
  let e := series (w / 8 + 2)
    (fun i tail => (ofInt 1).add ((y.mul tail).scale 1 (i + 1))) (between 0 2)
  (List.range halvings).foldl (fun e _ => e.mul e) e

/-- The exponential, if the number is known well enough to be reduced. -/
def exp? (x : Enclosure w) : Option (Enclosure w) :=
  let unit : Enclosure w := ln2
  let k := (2 * x.low + unit.low) / (2 * unit.low)
  let r := x.sub (unit.scale k 1)
  if -(Int.pow 2 w) ≤ 2 * r.low ∧ 2 * r.high ≤ Int.pow 2 w then
    let e := expSmall r
    some (if 0 ≤ k then e.scale (Int.pow 2 k.natAbs) 1 else e.scale 1 (Nat.pow 2 k.natAbs))
  else none

end Enclosure

namespace Floating

variable {F : Format}

/-- The value nearest to the exponential of a number that `f` encloses.  As two is less than the
base, exponents beyond the number of binary places leave the range of the format. -/
def nearestExp (f : (w : Nat) → Enclosure w) : Floating F :=
  settle fun w =>
    let x := f w
    let top : Int := F.maxShift * Int.pow 2 w
    let bottom : Int := -((F.unitBits + 2) * Int.pow 2 w)
    if top ≤ x.low then some (infinite false)
    else if x.high ≤ bottom then some (zero false)
    else if bottom < x.low ∧ x.high < top then x.exp?.bind Enclosure.nearest?
    else none

/-- The exponential. -/
def exp : Floating F → Floating F
  | nan => nan
  | infinite negative => if negative then zero false else infinite false
  | a@(finite _ significand _ _) =>
    if significand = 0 then ofInt 1
    else nearestExp fun _ => .ofFraction a.units F.unitsPerOne

/-- A logarithm: `f` is asked for positive values only, the others being alike for all bases. -/
def logarithm (f : Floating F → Floating F) : Floating F → Floating F
  | nan => nan
  | infinite negative => if negative then nan else infinite false
  | a@(finite negative significand _ _) =>
    if significand = 0 then infinite true else if negative then nan else f a

/-- The natural logarithm. -/
def ln : Floating F → Floating F :=
  logarithm fun a =>
    if a = ofInt 1 then zero false
    else nearest fun _ => some (.ln a.magnitude F.unitsPerOne)

/-- The exponent of a power of ten below the largest value. -/
def powerOfTen? (a : Floating F) : Option Nat :=
  (List.range (F.unitBits + 1)).find? fun k =>
    decide (Nat.pow 10 k * F.unitsPerOne = a.magnitude)

/-- The decimal logarithm. -/
def log10 : Floating F → Floating F :=
  logarithm fun a =>
    match powerOfTen? a with
    | some k => ofInt k
    | none => nearest fun _ => (Enclosure.ln a.magnitude F.unitsPerOne).div? (.ln 10 1)

end Floating

end Formula
