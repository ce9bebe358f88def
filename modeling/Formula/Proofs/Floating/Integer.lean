import Formula.Proofs.Floating.Magnitude

/-!
# Integers among floating-point numbers

A format has all integers of its precision, and their sums are exact as long as they stay below the
power of two that the precision sets (`toInt?_ofInt`, `add_eq_ofInt`).  At this power, adding one
changes nothing any more (`add_one_eq_self`).  A product of finite values that is not finite has
exceeded the format, on the side of its sign (`mul_eq_infinite`); a finite product with an integer
is smaller than the exact one by little (`le_magnitude_mul_ofInt`).
-/

namespace Formula.Floating

open Number

variable {F : Format} {a b : Floating F}

/-! ## Signs -/

theorem isNegative_ofSignificand (negative : Bool) (significand shift : Nat) :
    (ofSignificand negative significand shift : Floating F).isNegative = negative := by
  unfold ofSignificand
  dsimp only
  split <;> split <;> rfl

theorem isNegative_ofRatio (negative : Bool) (n d : Nat) :
    (ofRatio negative n d : Floating F).isNegative = negative :=
  isNegative_ofSignificand negative _ _

theorem isNegative_mul (ha : a.isFinite = true) (hb : b.isFinite = true) :
    (a.mul b).isNegative = (a.isNegative != b.isNegative) := by
  cases a with
  | nan | infinite negative => cases ha
  | finite m significand shift h =>
    cases b with
    | nan | infinite negative => cases hb
    | finite n significand' shift' h' => exact isNegative_ofRatio _ _ _

theorem mul_eq_infinite (ha : a.isFinite = true) (hb : b.isFinite = true)
    (h : (a.mul b).isFinite = false) : a.mul b = infinite (a.isNegative != b.isNegative) := by
  obtain ⟨negative, ⟨hinfinite, -⟩ | ⟨hfinite, -⟩⟩ := isRounded_mul ha hb
  · have hsign := isNegative_mul ha hb
    rw [hinfinite] at hsign ⊢
    rw [← hsign]
    rfl
  · rw [h] at hfinite
    cases hfinite

/-! ## Integers -/

theorem ofInt_natCast (k : Nat) : (ofInt k : Floating F) = ofRatio false (k * F.unitsPerOne) 1 := by
  have hcast : (k : Int) * F.unitsPerOne = ((k * F.unitsPerOne : Nat) : Int) := by push_cast; rfl
  rw [ofInt, ofUnits, hcast, Int.natAbs_natCast, decide_eq_false (by omega)]

theorem isNegative_ofInt_natCast (k : Nat) : (ofInt k : Floating F).isNegative = false := by
  rw [ofInt_natCast, isNegative_ofRatio]

theorem magnitude_ofInt_natCast {k : Nat} (hk : k < 2 ^ F.precision) :
    (ofInt k : Floating F).isFinite = true ∧
      (ofInt k : Floating F).magnitude = k * F.unitsPerOne := by
  have hrounded : F.rounded (k * F.unitsPerOne) 1 = k * F.unitsPerOne := by
    rw [F.unitsPerOne_eq]
    simpa using F.rounded_eq_self F.unitBits hk Nat.one_pos
  have hlt : k * F.unitsPerOne < 2 ^ (F.precision + F.maxShift) := by
    rw [F.unitsPerOne_eq, Nat.pow_add]
    exact Nat.mul_lt_mul_of_lt_of_le hk
      (Nat.pow_le_pow_right (by decide) F.unitBits_lt_maxShift.le) (Nat.two_pow_pos _)
  have h := isRounded_ofRatio (F := F) false (k * F.unitsPerOne) Nat.one_pos
  rw [hrounded, ← ofInt_natCast] at h
  exact h.finite_of_lt hlt

/-- An integer of at most the digits of the precision is a value. -/
theorem toInt?_ofInt {k : Nat} (hk : k < 2 ^ F.precision) :
    (ofInt k : Floating F).toInt? = some (k : Int) := by
  obtain ⟨hfinite, hmagnitude⟩ := magnitude_ofInt_natCast (F := F) hk
  rw [toInt?_eq_some_iff, units, isNegative_ofInt_natCast, hmagnitude]
  refine ⟨hfinite, ?_⟩
  push_cast
  rfl

/-- The sum of two integers is that of the integers, rounded once. -/
theorem add_eq_ofInt {m n : Int} (ha : a.toInt? = some m) (hb : b.toInt? = some n)
    (hsum : m + n ≠ 0) : a.add b = ofInt (m + n) := by
  obtain ⟨hfa, hua⟩ := toInt?_eq_some_iff.1 ha
  obtain ⟨hfb, hub⟩ := toInt?_eq_some_iff.1 hb
  have hpos : (F.unitsPerOne : Int) ≠ 0 := by exact_mod_cast F.unitsPerOne_pos.ne'
  have hunits : a.units + b.units = (m + n) * F.unitsPerOne := by rw [hua, hub, Int.add_mul]
  have hne : ¬ a.units + b.units = 0 := by
    rw [hunits, Int.mul_eq_zero]
    exact fun h => h.elim hsum hpos
  rw [ofInt, ← hunits]
  cases a with
  | nan | infinite negative => cases hfa
  | finite m significand shift h =>
    cases b with
    | nan | infinite negative => cases hfb
    | finite n significand' shift' h' => exact if_neg hne

/-- Multiplied by an integer, a value from one on stays there, and it loses little by rounding. -/
theorem le_magnitude_mul_ofInt {k : Nat} (hk : k < 2 ^ F.precision) (hpos : 0 < k)
    (ha : F.unitsPerOne ≤ a.magnitude) (h : (a.mul (ofInt k)).isFinite = true) :
    F.unitsPerOne ≤ (a.mul (ofInt k)).magnitude ∧
      a.magnitude * k * (2 ^ F.precision - 1) ≤ (a.mul (ofInt k)).magnitude * 2 ^ F.precision := by
  obtain ⟨hfinite, hmagnitude⟩ := magnitude_ofInt_natCast (F := F) hk
  obtain ⟨negative, ⟨hinfinite, -⟩ | ⟨-, hproduct⟩⟩ := isRounded_mul (isFinite_of_mul h).1 hfinite
  · rw [hinfinite] at h
    cases h
  have hone := F.unitsPerOne_pos
  have hle : F.unitsPerOne * F.unitsPerOne ≤ a.magnitude * (k * F.unitsPerOne) :=
    Nat.mul_le_mul ha (Nat.le_mul_of_pos_left _ hpos)
  have hfull : F.unitsPerOne * 2 ^ (F.precision - 1) ≤ a.magnitude * (k * F.unitsPerOne) := by
    refine le_trans (Nat.mul_le_mul_left _ ?_) hle
    have hbits := F.precision_le_unitBits
    rw [F.unitsPerOne_eq]
    exact Nat.pow_le_pow_right (by decide) (by omega)
  rw [hproduct, hmagnitude]
  constructor
  · rw [F.unitsPerOne_eq] at hle ⊢
    exact F.two_pow_le_rounded (Nat.two_pow_pos _) hle
  · apply Nat.le_of_mul_le_mul_right _ hone
    calc a.magnitude * k * (2 ^ F.precision - 1) * F.unitsPerOne
        = a.magnitude * (k * F.unitsPerOne) * (2 ^ F.precision - 1) := by ring
      _ ≤ F.rounded (a.magnitude * (k * F.unitsPerOne)) F.unitsPerOne * F.unitsPerOne *
          2 ^ F.precision := F.mul_le_rounded_mul hone hfull
      _ = F.rounded (a.magnitude * (k * F.unitsPerOne)) F.unitsPerOne * 2 ^ F.precision *
          F.unitsPerOne := by ring

/-- Counting by ones stands still at the power of two that the precision sets. -/
theorem add_one_eq_self (F : Format) :
    (ofInt (2 ^ F.precision) : Floating F).add one = ofInt (2 ^ F.precision) := by
  cases F <;> decide +kernel

end Formula.Floating
