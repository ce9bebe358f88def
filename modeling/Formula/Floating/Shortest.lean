import Formula.Floating.Basic
import Formula.Text.Decimal

/-!
# The shortest decimal text of a floating-point number

Among the decimals that read back as a value, those with the fewest digits are wanted, and among
these the nearest to the value.  They are found on the grids of multiples of powers of ten, from the
coarsest on: if any point of a grid reads back, one of the value's two neighbours on it does.

The text has no exponent.  It is filled up with zeros, and has a point only if there is a fraction.
-/

namespace Formula.Floating

variable {F : Format}

/-- The decimals that round to one value: those between `low` and `high`, in quarters of a unit.
`exact` is the value itself. -/
structure Reach where
  low : Nat
  exact : Nat
  high : Nat
  /-- Whether the ends round to the value, too. -/
  closed : Bool

/-- The reach of the finite value with the given significand and shift.  Below a power of two the
neighbours lie closer together. -/
def Reach.of (F : Format) (significand shift : Nat) : Reach :=
  let quarter := Nat.pow 2 shift
  let exact := 4 * significand * quarter
  let narrow := significand = Nat.pow 2 (F.precision - 1) ∧ 0 < shift
  { low := exact - (if narrow then quarter else 2 * quarter)
    exact
    high := exact + 2 * quarter
    closed := significand % 2 = 0 }

/-- Whether `n / d` quarters of a unit lie in the reach. -/
def Reach.contains (r : Reach) (n d : Nat) : Bool :=
  if r.closed then decide (r.low * d ≤ n) && decide (n ≤ r.high * d)
  else decide (r.low * d < n) && decide (n < r.high * d)

/-- The numerator and the denominator of `10 ^ exponent`, counted in quarters of a unit. -/
def gridStep (F : Format) (exponent : Int) : Nat × Nat :=
  if exponent < 0 then (4 * F.unitsPerOne, Nat.pow 10 exponent.natAbs)
  else (4 * F.unitsPerOne * Nat.pow 10 exponent.natAbs, 1)

/-- The multiple of `10 ^ exponent` that reads back and is nearest to the value, the larger one of
two equally near ones. -/
def Reach.onGrid? (F : Format) (r : Reach) (exponent : Int) : Option Nat :=
  let (n, d) := gridStep F exponent
  let below := r.exact * d / n
  let rest := r.exact * d % n
  match r.contains (below * n) d, r.contains ((below + 1) * n) d with
  | true, true => some (if 2 * rest < n then below else below + 1)
  | true, false => some below
  | false, true => some (below + 1)
  | false, false => none

/-- The exponent of the leading decimal digit of a positive number of quarters of a unit.  It is
estimated from the binary one and then corrected. -/
def leadingExponent (F : Format) (quarters : Nat) : Int :=
  let estimate := ((quarters.log2 : Int) - F.unitBits - 2) * 30103 / 100000
  let reaches (e : Int) : Bool := (gridStep F e).1 ≤ quarters * (gridStep F e).2
  if reaches (estimate + 1) then estimate + 1
  else if reaches estimate then estimate
  else estimate - 1

/-- The digits of the shortest decimal of a positive finite value, as a number, and the exponent of
the last of them. -/
def shortest (F : Format) (significand shift : Nat) : Nat × Int :=
  let r := Reach.of F significand shift
  let top := leadingExponent F r.exact
  let found := (List.range F.precision).findSome? fun (i : Nat) =>
    (r.onGrid? F (top - i)).map fun n => (n, top - (i : Int))
  found.getD (0, 0)

/-- The number `n * 10 ^ exponent` in positional notation. -/
def positional (n : Nat) (exponent : Int) : List Char :=
  let ds := Decimal.digits n
  if 0 ≤ exponent then ds ++ List.replicate exponent.natAbs '0'
  else
    let places := exponent.natAbs
    let padded := List.replicate (places + 1 - ds.length) '0' ++ ds
    let whole := padded.take (padded.length - places)
    let fraction := ((padded.drop (padded.length - places)).reverse.dropWhile (· == '0')).reverse
    if fraction.isEmpty then whole else whole ++ '.' :: fraction

/-- The text of a value. -/
def text : Floating F → String
  | nan => "NaN"
  | infinite negative => if negative then "-inf" else "inf"
  | finite negative significand shift _ =>
    let digits :=
      if significand = 0 then ['0']
      else positional (shortest F significand shift).1 (shortest F significand shift).2
    String.ofList (if negative then '-' :: digits else digits)

end Formula.Floating
