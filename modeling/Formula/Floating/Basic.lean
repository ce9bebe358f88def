/-!
# Binary floating-point numbers

`Floating F` holds the values of a binary interchange format: one NaN, two infinities, and signed
finite values, among them two zeros.  A finite value is a whole number of units, where the unit is
the least positive value of the format (`Floating.units`).  `Floating.ofRatio` rounds a ratio of
units to the nearest value, of two equally near ones to the one with the even significand; all
arithmetic goes through it.
-/

namespace Formula

/-- A binary interchange format. -/
inductive Format where
  /-- Single precision. -/
  | binary32
  /-- Double precision. -/
  | binary64
  deriving DecidableEq, Repr

namespace Format

/-- The number of bits of a full significand. -/
def precision : Format → Nat
  | binary32 => 24
  | binary64 => 53

/-- The unit is two to the power of minus this number. -/
def unitBits : Format → Nat
  | binary32 => 149
  | binary64 => 1074

/-- The largest exponent of two by which a significand is scaled, counted in units. -/
def maxShift : Format → Nat
  | binary32 => 253
  | binary64 => 2045

/-- The number of units that make up one. -/
def unitsPerOne (F : Format) : Nat :=
  Nat.pow 2 F.unitBits

/-- Whether `significand * 2 ^ shift` units is a value of the format in its only representation: a
significand that is not full stands at the least shift. -/
def Canonical (F : Format) (significand shift : Nat) : Prop :=
  significand < Nat.pow 2 F.precision ∧ shift ≤ F.maxShift ∧
    (Nat.pow 2 (F.precision - 1) ≤ significand ∨ shift = 0)

instance (F : Format) (significand shift : Nat) : Decidable (F.Canonical significand shift) :=
  inferInstanceAs (Decidable (_ ∧ _ ∧ _))

end Format

/-- A floating-point number of the format `F`. -/
inductive Floating (F : Format) where
  | nan
  | infinite (negative : Bool)
  | finite (negative : Bool) (significand shift : Nat) (canonical : F.Canonical significand shift)
  deriving DecidableEq, Repr

namespace Floating

variable {F : Format}

/-- Zero, with a sign. -/
def zero (negative : Bool) : Floating F :=
  .finite negative 0 0 ⟨Nat.two_pow_pos _, Nat.zero_le _, .inr rfl⟩

/-! ## Rounding -/

/-- The natural number nearest to `n / d`, of two equally near ones the even one. -/
def roundDiv (n d : Nat) : Nat :=
  let q := n / d
  let twice := 2 * (n % d)
  if twice < d ∨ (twice = d ∧ q % 2 = 0) then q else q + 1

/-- The value of `significand * 2 ^ shift` units, where the significand may have been rounded up to
the next power of two.  What exceeds the format is infinite. -/
def ofSignificand (negative : Bool) (significand shift : Nat) : Floating F :=
  let full := significand = Nat.pow 2 F.precision
  let m := if full then Nat.pow 2 (F.precision - 1) else significand
  let s := if full then shift + 1 else shift
  if h : F.Canonical m s then .finite negative m s h else .infinite negative

/-- The value nearest to `n / d` units with the given sign, of two equally near ones the one with
the even significand. -/
def ofRatio (negative : Bool) (n d : Nat) : Floating F :=
  let shift := (n / d).log2 + 1 - F.precision
  ofSignificand negative (roundDiv n (d * Nat.pow 2 shift)) shift

/-- The value nearest to an integer number of units. -/
def ofUnits (n : Int) : Floating F :=
  ofRatio (decide (n < 0)) n.natAbs 1

/-- The value nearest to an integer. -/
def ofInt (n : Int) : Floating F :=
  ofUnits (n * F.unitsPerOne)

/-! ## Views -/

/-- Whether the sign is negative.  NaN has no sign. -/
def isNegative : Floating F → Bool
  | nan => false
  | infinite negative => negative
  | finite negative _ _ _ => negative

/-- Whether a value is neither NaN nor infinite. -/
def isFinite : Floating F → Bool
  | finite _ _ _ _ => true
  | _ => false

/-- The number of units in the magnitude of a finite value, 0 for the others. -/
def magnitude : Floating F → Nat
  | finite _ significand shift _ => significand * Nat.pow 2 shift
  | _ => 0

/-- The number of units of a finite value, 0 for the others. -/
def units (a : Floating F) : Int :=
  if a.isNegative then -(a.magnitude : Int) else a.magnitude

/-- The integer that a value equals. -/
def toInt? (a : Floating F) : Option Int :=
  if a.isFinite ∧ a.units % F.unitsPerOne = 0 then some (a.units / F.unitsPerOne) else none

/-- The order of two values.  NaN has none; the zeros are equal. -/
def compare? : Floating F → Floating F → Option Ordering
  | nan, _ | _, nan => none
  | infinite m, infinite n => some (compare n.toInt m.toInt)
  | infinite m, finite _ _ _ _ => some (if m then .lt else .gt)
  | finite _ _ _ _, infinite n => some (if n then .gt else .lt)
  | a, b => some (compare a.units b.units)

end Floating

end Formula
