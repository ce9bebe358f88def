import Formula.Floating.Basic

/-!
# Arithmetic on floating-point numbers

Each operation is the exact one, rounded once.  Where the exact result is zero its sign is that of
the rules of sums and products; where there is none the result is NaN or infinite.
-/

namespace Formula.Floating

variable {F : Format}

/-- The same magnitude with the opposite sign. -/
def neg : Floating F → Floating F
  | nan => nan
  | infinite negative => infinite (!negative)
  | finite negative significand shift h => finite (!negative) significand shift h

/-- The same magnitude with a positive sign. -/
def abs (a : Floating F) : Floating F :=
  if a.isNegative then a.neg else a

/-- The sum.  An exact zero is negative only if both terms are. -/
def add : Floating F → Floating F → Floating F
  | nan, _ | _, nan => nan
  | infinite m, infinite n => if m = n then infinite m else nan
  | infinite m, finite _ _ _ _ => infinite m
  | finite _ _ _ _, infinite n => infinite n
  | a@(finite m _ _ _), b@(finite n _ _ _) =>
    if a.units + b.units = 0 then zero (m && n) else ofUnits (a.units + b.units)

/-- The difference. -/
def sub (a b : Floating F) : Floating F :=
  add a b.neg

/-- The product. -/
def mul : Floating F → Floating F → Floating F
  | nan, _ | _, nan => nan
  | infinite m, infinite n => infinite (m != n)
  | infinite m, finite n significand _ _ => if significand = 0 then nan else infinite (m != n)
  | finite m significand _ _, infinite n => if significand = 0 then nan else infinite (m != n)
  | a@(finite m _ _ _), b@(finite n _ _ _) =>
    ofRatio (m != n) (a.magnitude * b.magnitude) F.unitsPerOne

/-- The quotient.  Only a zero divided by a zero and an infinity divided by an infinity have
none. -/
def div : Floating F → Floating F → Floating F
  | nan, _ | _, nan => nan
  | infinite _, infinite _ => nan
  | infinite m, finite n _ _ _ => infinite (m != n)
  | finite m _ _ _, infinite n => zero (m != n)
  | a@(finite m _ _ _), b@(finite n _ _ _) =>
    if b.magnitude = 0 then if a.magnitude = 0 then nan else infinite (m != n)
    else ofRatio (m != n) (a.magnitude * F.unitsPerOne) b.magnitude

/-- The remainder of the quotient truncated toward zero, with the sign of the dividend.  It is
always exact. -/
def rem : Floating F → Floating F → Floating F
  | nan, _ | _, nan => nan
  | infinite _, _ => nan
  | a@(finite _ _ _ _), infinite _ => a
  | a@(finite m _ _ _), b@(finite _ _ _ _) =>
    if b.magnitude = 0 then nan else ofRatio m (a.magnitude % b.magnitude) 1

/-! ## Rounding to whole numbers -/

/-- A finite value with its magnitude, a ratio of units to the units of one, replaced by a whole
number.  The sign stays, also that of a zero. -/
def mapWhole (f : Bool → Nat → Nat) : Floating F → Floating F
  | a@(finite negative _ _ _) => ofRatio negative (f negative a.magnitude * F.unitsPerOne) 1
  | a => a

/-- The whole number next to a value toward zero. -/
def trunc (a : Floating F) : Floating F :=
  a.mapWhole fun _ n => n / F.unitsPerOne

/-- The largest whole number that is not above a value. -/
def floor (a : Floating F) : Floating F :=
  a.mapWhole fun negative n =>
    if negative then (n + F.unitsPerOne - 1) / F.unitsPerOne else n / F.unitsPerOne

/-- The smallest whole number that is not below a value. -/
def ceil (a : Floating F) : Floating F :=
  a.mapWhole fun negative n =>
    if negative then n / F.unitsPerOne else (n + F.unitsPerOne - 1) / F.unitsPerOne

/-- The whole number nearest to a value, of two equally near ones the one away from zero. -/
def round (a : Floating F) : Floating F :=
  a.mapWhole fun _ n => (2 * n + F.unitsPerOne) / (2 * F.unitsPerOne)

end Formula.Floating
