import Formula.Floating.Arithmetic

/-!
# Square roots

Square roots and hypotenuses, rounded from the exact value.  The integer root of a number scaled by
a power of four gives more bits than the format has; if it is not exact, half a step is added, which
lies on the same side of every rounding boundary as the root itself.
-/

namespace Formula

/-- The largest natural number whose square is at most `n`. -/
def floorSqrt (n : Nat) : Nat :=
  if n < 2 then n
  else
    let r := 2 * floorSqrt (n / 4)
    if (r + 1) * (r + 1) ≤ n then r + 1 else r
termination_by n

theorem floorSqrt_mul_self_le (n : Nat) : floorSqrt n * floorSqrt n ≤ n := by
  fun_induction floorSqrt n with
  | case1 n h =>
    have : n = 0 ∨ n = 1 := by omega
    rcases this with rfl | rfl <;> decide
  | case2 n h r h' ih => exact h'
  | case3 n h r h' ih =>
    have h4 : r * r = 4 * (floorSqrt (n / 4) * floorSqrt (n / 4)) := by
      simp only [r]; rw [Nat.mul_mul_mul_comm]
    omega

theorem lt_floorSqrt_succ_mul_self (n : Nat) : n < (floorSqrt n + 1) * (floorSqrt n + 1) := by
  fun_induction floorSqrt n with
  | case1 n h =>
    have : n = 0 ∨ n = 1 := by omega
    rcases this with rfl | rfl <;> decide
  | case2 n h r h' ih =>
    have h4 : (r + 1 + 1) * (r + 1 + 1) =
        4 * ((floorSqrt (n / 4) + 1) * (floorSqrt (n / 4) + 1)) := by
      have : r + 1 + 1 = 2 * (floorSqrt (n / 4) + 1) := by simp only [r]; omega
      rw [this, Nat.mul_mul_mul_comm]
    omega
  | case3 n h r h' ih => omega

namespace Floating

variable {F : Format}

/-- The value nearest to the square root of `n` squares of units. -/
def ofSquare (n : Nat) : Floating F :=
  let extra := F.precision + 2
  let scaled := n * Nat.pow 4 extra
  let r := floorSqrt scaled
  let twice := if r * r = scaled then 2 * r else 2 * r + 1
  ofRatio false twice (2 * Nat.pow 2 extra)

/-- The square root.  That of a zero is the same zero, and a negative number has none. -/
def sqrt : Floating F → Floating F
  | nan => nan
  | infinite negative => if negative then nan else infinite false
  | a@(finite negative significand _ _) =>
    if significand = 0 then a
    else if negative then nan
    else ofSquare (a.magnitude * F.unitsPerOne)

/-- The square root of the sum of two squares.  It is infinite if either is, whatever the other. -/
def hypot : Floating F → Floating F → Floating F
  | infinite _, _ | _, infinite _ => infinite false
  | nan, _ | _, nan => nan
  | a, b => ofSquare (a.magnitude * a.magnitude + b.magnitude * b.magnitude)

end Floating

end Formula
