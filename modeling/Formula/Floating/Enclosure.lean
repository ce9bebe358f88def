import Formula.Floating.Root

/-!
# Enclosures of real numbers

An `Enclosure w` is a pair of integers that a real number, multiplied by `2 ^ w`, lies between.
Operations round the lower end down and the upper end up.  `Floating.settle` raises the precision
until both ends of an enclosure round to the same value, which is then the nearest one.

A power series is summed from its tail: the tail starts as a coarse enclosure that is certain to
hold it, and each term before it narrows the result (`Enclosure.series`).
-/

namespace Formula

/-- A real number between `low / 2 ^ w` and `high / 2 ^ w`. -/
structure Enclosure (w : Nat) where
  low : Int
  high : Int
  deriving DecidableEq, Repr

/-- `n / d` rounded up. -/
def ceilDiv (n d : Int) : Int :=
  -(-n / d)

namespace Enclosure

variable {w : Nat}

/-- The fraction `n / d`, where `d` is positive. -/
def ofFraction (n : Int) (d : Nat) : Enclosure w :=
  ⟨n * Int.pow 2 w / d, ceilDiv (n * Int.pow 2 w) d⟩

/-- An integer. -/
def ofInt (n : Int) : Enclosure w :=
  ⟨n * Int.pow 2 w, n * Int.pow 2 w⟩

/-- Any number between two integers. -/
def between (m n : Int) : Enclosure w :=
  ⟨m * Int.pow 2 w, n * Int.pow 2 w⟩

/-- The opposite number. -/
def neg (a : Enclosure w) : Enclosure w :=
  ⟨-a.high, -a.low⟩

/-- The sum. -/
def add (a b : Enclosure w) : Enclosure w :=
  ⟨a.low + b.low, a.high + b.high⟩

/-- The difference. -/
def sub (a b : Enclosure w) : Enclosure w :=
  a.add b.neg

/-- The product with the fraction `n / d`, where `d` is positive. -/
def scale (a : Enclosure w) (n : Int) (d : Nat) : Enclosure w :=
  if 0 ≤ n then ⟨a.low * n / d, ceilDiv (a.high * n) d⟩
  else ⟨a.high * n / d, ceilDiv (a.low * n) d⟩

/-- The product, from the products of all pairs of ends. -/
def mul (a b : Enclosure w) : Enclosure w :=
  let p := a.low * b.low
  let q := a.low * b.high
  let r := a.high * b.low
  let s := a.high * b.high
  ⟨min (min p q) (min r s) / Int.pow 2 w, ceilDiv (max (max p q) (max r s)) (Int.pow 2 w)⟩

/-- The reciprocal, if the number is certain to be positive. -/
def inv? (a : Enclosure w) : Option (Enclosure w) :=
  if 0 < a.low then some ⟨Int.pow 4 w / a.high, ceilDiv (Int.pow 4 w) a.low⟩ else none

/-- The quotient, if the divisor is certain not to be zero. -/
def div? (a b : Enclosure w) : Option (Enclosure w) :=
  match b.inv? with
  | some c => some (a.mul c)
  | none => b.neg.inv?.map fun c => a.neg.mul c

/-- The square root of a number that is not negative. -/
def sqrt (a : Enclosure w) : Enclosure w :=
  ⟨floorSqrt (a.low * Int.pow 2 w).toNat, floorSqrt (a.high * Int.pow 2 w).toNat + 1⟩

/-- The number `term 0 (term 1 (… (term (n - 1) tail)))`. -/
def series (n : Nat) (term : Nat → Enclosure w → Enclosure w) (tail : Enclosure w) :
    Enclosure w :=
  (List.range n).foldr term tail

/-- The value that all numbers of an enclosure round to, if it is the same for both ends. -/
def nearest? {F : Format} (a : Enclosure w) : Option (Floating F) :=
  let round (n : Int) : Floating F :=
    .ofRatio (decide (n < 0)) (n.natAbs * F.unitsPerOne) (Nat.pow 2 w)
  if round a.low = round a.high then some (round a.low) else none

end Enclosure

/-- The first answer of `f`, asked with ever higher precision. -/
def Floating.settle {F : Format} (f : Nat → Option (Floating F)) : Floating F :=
  ((List.range 10).findSome? fun i => f (Nat.pow 2 (i + 7))).getD .nan

/-- The value nearest to a number that `f` encloses with any precision it is asked for. -/
def Floating.nearest {F : Format} (f : (w : Nat) → Option (Enclosure w)) : Floating F :=
  settle fun w => (f w).bind Enclosure.nearest?

end Formula
