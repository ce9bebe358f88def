import Formula.Floating.Enclosure

/-!
# Circular functions

Sines and cosines are reduced by multiples of a quarter turn, with as many bits of pi as the
argument needs, and summed as power series.  All inverse functions come from one: the angle of a
point of the plane, reduced to the first octant and by halving.
-/

namespace Formula

namespace Enclosure

variable {w : Nat}

/-- The inverse tangent of a number of magnitude at most one fifth. -/
def arctanSmall (z : Enclosure w) : Enclosure w :=
  let square := z.mul z
  z.mul <| series (w / 4 + 2)
    (fun i tail => (ofFraction 1 (2 * i + 1)).sub (square.mul tail)) (between 0 1)

/-- The number pi, as 16 arctan (1/5) - 4 arctan (1/239). -/
def pi : Enclosure w :=
  ((arctanSmall (ofFraction 1 5)).scale 16 1).sub ((arctanSmall (ofFraction 1 239)).scale 4 1)

/-- The tangent of half the angle whose tangent is `z`. -/
def halveTangent? (z : Enclosure w) : Option (Enclosure w) :=
  z.div? ((ofInt 1).add ((ofInt 1).add (z.mul z)).sqrt)

/-- The inverse tangent of a number between zero and one. -/
def arctan? (z : Enclosure w) : Option (Enclosure w) := do
  let z ← halveTangent? z
  let z ← halveTangent? z
  let z ← halveTangent? z
  return (arctanSmall z).scale 8 1

/-- The angle between the first axis and the point `(x, y)` of the first quadrant. -/
def angle? (y x : Nat) : Option (Enclosure w) :=
  if y ≤ x then arctan? (ofFraction y x)
  else do return (pi.scale 1 2).sub (← arctan? (ofFraction x y))

/-- The inverse sine of a number between zero and one, as twice the angle whose tangent is
`x / (1 + sqrt (1 - x ^ 2))`. -/
def arcsin? (x : Enclosure w) : Option (Enclosure w) := do
  let z ← x.div? ((ofInt 1).add ((ofInt 1).sub (x.mul x)).sqrt)
  return (← arctan? z).scale 2 1

/-- The sine of a number of magnitude at most one. -/
def sinSmall (r : Enclosure w) : Enclosure w :=
  let square := r.mul r
  r.mul <| series (w / 6 + 10)
    (fun i tail => (ofInt 1).sub ((square.mul tail).scale 1 ((2 * i + 2) * (2 * i + 3))))
    (between 0 1)

/-- The cosine of a number of magnitude at most one. -/
def cosSmall (r : Enclosure w) : Enclosure w :=
  let square := r.mul r
  series (w / 6 + 10)
    (fun i tail => (ofInt 1).sub ((square.mul tail).scale 1 ((2 * i + 1) * (2 * i + 2))))
    (between 0 1)

/-- The number of quarter turns nearest to an angle, and what is left of it, if the angle is known
well enough for the rest to be small. -/
def reduce? (x : Enclosure w) : Option (Int × Enclosure w) :=
  let quarter : Enclosure w := pi.scale 1 2
  let k := (2 * x.low + quarter.low) / (2 * quarter.low)
  let r := x.sub (quarter.scale k 1)
  if -(Int.pow 2 w) ≤ r.low ∧ r.high ≤ Int.pow 2 w then some (k, r) else none

/-- The sine of an angle of `k` quarter turns and `r`. -/
def sinFrom (k : Int) (r : Enclosure w) : Enclosure w :=
  let s := if k % 2 = 0 then sinSmall r else cosSmall r
  if k % 4 < 2 then s else s.neg

/-- The sine. -/
def sin? (x : Enclosure w) : Option (Enclosure w) := do
  let (k, r) ← reduce? x
  return sinFrom k r

/-- The cosine, as the sine of a quarter turn more. -/
def cos? (x : Enclosure w) : Option (Enclosure w) := do
  let (k, r) ← reduce? x
  return sinFrom (k + 1) r

/-- The tangent. -/
def tan? (x : Enclosure w) : Option (Enclosure w) := do
  let (k, r) ← reduce? x
  (sinFrom k r).div? (sinFrom (k + 1) r)

end Enclosure

namespace Floating

variable {F : Format}

/-- The value nearest to pi. -/
def pi : Floating F :=
  nearest fun _ => some .pi

/-- A circular function: `atZero` on zeros, `f` on the other finite values. -/
def circular (atZero : Floating F → Floating F)
    (f : (w : Nat) → Enclosure w → Option (Enclosure w)) : Floating F → Floating F
  | a@(finite _ significand _ _) =>
    if significand = 0 then atZero a
    else nearest fun w => f w (.ofFraction a.units F.unitsPerOne)
  | _ => nan

/-- The sine. -/
def sin : Floating F → Floating F :=
  circular id fun _ => Enclosure.sin?

/-- The cosine. -/
def cos : Floating F → Floating F :=
  circular (fun _ => ofInt 1) fun _ => Enclosure.cos?

/-- The tangent. -/
def tan : Floating F → Floating F :=
  circular id fun _ => Enclosure.tan?

/-- The value nearest to a number enclosed by `f`, with a sign. -/
def signedNearest (negative : Bool) (f : (w : Nat) → Option (Enclosure w)) : Floating F :=
  nearest fun w => (f w).map fun a => if negative then a.neg else a

/-- The value nearest to the fraction `n / d` of a half turn, with a sign. -/
def partOfTurn (negative : Bool) (n : Int) (d : Nat) : Floating F :=
  signedNearest negative fun _ => some (Enclosure.pi.scale n d)

/-- The angle of the point `(x, y)`, where `y` is a finite positive or negative number of units and
`x` any finite number of units. -/
def angle (negative : Bool) (y : Nat) (x : Int) : Floating F :=
  signedNearest negative fun _ => do
    let a ← Enclosure.angle? y x.natAbs
    return if x < 0 then Enclosure.pi.sub a else a

/-- The angle between the first axis and the point `(x, y)`, negative below that axis.  Signed zeros
and infinities are limits. -/
def atan2 : Floating F → Floating F → Floating F
  | nan, _ | _, nan => nan
  | infinite m, infinite n => if n then partOfTurn m 3 4 else partOfTurn m 1 4
  | infinite m, finite _ _ _ _ => partOfTurn m 1 2
  | finite m _ _ _, infinite n => if n then partOfTurn m 1 1 else zero m
  | y@(finite m _ _ _), x@(finite n _ _ _) =>
    if y.magnitude = 0 then if n then partOfTurn m 1 1 else zero m
    else if x.magnitude = 0 then partOfTurn m 1 2
    else angle m y.magnitude x.units

/-- The inverse tangent. -/
def atan (a : Floating F) : Floating F :=
  atan2 a (ofInt 1)

/-- The inverse sine of the magnitude of `a`, which is at most one. -/
def arcsinMagnitude? (a : Floating F) {w : Nat} : Option (Enclosure w) :=
  Enclosure.arcsin? (.ofFraction a.magnitude F.unitsPerOne)

/-- Whether the magnitude of a value is at most one. -/
def inUnitRange : Floating F → Bool
  | a@(finite _ _ _ _) => a.magnitude ≤ F.unitsPerOne
  | _ => false

/-- The inverse sine. -/
def asin (a : Floating F) : Floating F :=
  if !a.inUnitRange then nan
  else if a.magnitude = 0 then a
  else signedNearest a.isNegative fun _ => arcsinMagnitude? a

/-- The inverse cosine, as what the inverse sine leaves of a quarter turn. -/
def acos (a : Floating F) : Floating F :=
  if !a.inUnitRange then nan
  else if a = ofInt 1 then zero false
  else nearest fun _ => do
    let s ← arcsinMagnitude? a
    let quarter := Enclosure.pi.scale 1 2
    return if a.isNegative then quarter.add s else quarter.sub s

end Floating

end Formula
