import Mathlib.Logic.Function.Iterate
import Formula.Floating.Number
import Formula.Proofs.Floating.Rounding

/-!
# Magnitudes of products

`Floating.IsAtLeast a k` and `Floating.IsAtMost a k` compare the magnitude of a value with `2 ^ -k`.
Since rounding keeps powers of two, both pass from two values to their product (`IsAtLeast.mul`,
`IsAtMost.mul`), down to the least positive value and below it to zero.  Between powers of two
rounding is monotone, so that the square of a value is bounded by the rounded square of a bound
(`magnitude_square_le`).
-/

namespace Formula

open Number

/-! ## Rounded products -/

namespace Format

variable (F : Format) {n i : Nat}

theorem two_pow_unitBits_eq (hi : i ≤ F.unitBits) :
    2 ^ F.unitBits = 2 ^ (F.unitBits - i) * 2 ^ i := by
  rw [← Nat.pow_add, Nat.sub_add_cancel hi]

/-- What is at least `2 ^ -i` before rounding, is so afterwards, down to the least positive value. -/
theorem le_rounded_mul_two_pow (hi : i ≤ F.unitBits)
    (h : F.unitsPerOne * F.unitsPerOne ≤ n * 2 ^ i) :
    F.unitsPerOne ≤ F.rounded n F.unitsPerOne * 2 ^ i := by
  have hrounded : 2 ^ (F.unitBits - i) ≤ F.rounded n F.unitsPerOne := by
    apply F.two_pow_le_rounded F.unitsPerOne_pos
    apply Nat.le_of_mul_le_mul_right _ (Nat.two_pow_pos i)
    calc 2 ^ (F.unitBits - i) * F.unitsPerOne * 2 ^ i
        = 2 ^ F.unitBits * F.unitsPerOne := by rw [F.two_pow_unitBits_eq hi]; ring
      _ = F.unitsPerOne * F.unitsPerOne := by rw [← F.unitsPerOne_eq]
      _ ≤ n * 2 ^ i := h
  calc F.unitsPerOne = 2 ^ (F.unitBits - i) * 2 ^ i := by
        rw [F.unitsPerOne_eq, F.two_pow_unitBits_eq hi]
    _ ≤ F.rounded n F.unitsPerOne * 2 ^ i := Nat.mul_le_mul_right _ hrounded

/-- What is at most `2 ^ -i` before rounding, is so afterwards, and zero below the least positive
value. -/
theorem rounded_mul_two_pow_le (h : n * 2 ^ i ≤ F.unitsPerOne * F.unitsPerOne) :
    F.rounded n F.unitsPerOne * 2 ^ i ≤ F.unitsPerOne := by
  by_cases hi : i ≤ F.unitBits
  · have hrounded : F.rounded n F.unitsPerOne ≤ 2 ^ (F.unitBits - i) := by
      apply F.rounded_le_two_pow F.unitsPerOne_pos
      apply Nat.le_of_mul_le_mul_right _ (Nat.two_pow_pos i)
      calc n * 2 ^ i ≤ F.unitsPerOne * F.unitsPerOne := h
        _ = 2 ^ F.unitBits * F.unitsPerOne := by rw [← F.unitsPerOne_eq]
        _ = 2 ^ (F.unitBits - i) * F.unitsPerOne * 2 ^ i := by
            rw [F.two_pow_unitBits_eq hi]; ring
    calc F.rounded n F.unitsPerOne * 2 ^ i
        ≤ 2 ^ (F.unitBits - i) * 2 ^ i := Nat.mul_le_mul_right _ hrounded
      _ = F.unitsPerOne := by rw [← F.two_pow_unitBits_eq hi, F.unitsPerOne_eq]
  · -- Here it is at most half a unit.
    have hdouble : F.unitsPerOne * 2 ≤ 2 ^ i := by
      rw [F.unitsPerOne_eq, ← Nat.pow_succ]
      exact Nat.pow_le_pow_right (by decide) (by omega)
    have hhalf : 2 * n ≤ F.unitsPerOne := by
      apply Nat.le_of_mul_le_mul_left _ F.unitsPerOne_pos
      calc F.unitsPerOne * (2 * n) = n * (F.unitsPerOne * 2) := by ring
        _ ≤ n * 2 ^ i := Nat.mul_le_mul_left _ hdouble
        _ ≤ F.unitsPerOne * F.unitsPerOne := h
    rw [F.rounded_eq_zero F.unitsPerOne_pos hhalf, Nat.zero_mul]
    exact Nat.zero_le _

end Format

namespace Floating

variable {F : Format}

/-! ## Views of a value -/

theorem units_eq_zero_iff {a : Floating F} : a.units = 0 ↔ a.magnitude = 0 := by
  unfold units
  split <;> omega

theorem units_zero : (Number.zero : Floating F).units = 0 :=
  units_eq_zero_iff.2 (Nat.zero_mul _)

theorem compare?_of_isFinite {a b : Floating F} (ha : a.isFinite = true) (hb : b.isFinite = true) :
    compare? a b = some (compare a.units b.units) := by
  cases a with
  | nan | infinite negative => cases ha
  | finite negative m s h =>
    cases b with
    | nan | infinite negative => cases hb
    | finite negative' m' s' h' => rfl

theorem compare?_zero {a : Floating F} (ha : a.isFinite = true) :
    compare? a (Number.zero : Floating F) = some (compare a.units 0) := by
  rw [compare?_of_isFinite ha rfl, units_zero]

theorem isZero_iff {a : Floating F} :
    isZero a = true ↔ a.isFinite = true ∧ a.magnitude = 0 := by
  by_cases ha : a.isFinite = true
  · have hcompare : isZero a = (some (compare a.units 0) == some .eq) :=
      congrArg (· == some Ordering.eq) (compare?_zero ha)
    rw [hcompare, beq_iff_eq, Option.some_inj, Int.compare_eq_eq, units_eq_zero_iff]
    exact ⟨fun h => ⟨ha, h⟩, fun h => h.2⟩
  · have hother : isZero a = false := by
      cases a with
      | nan => rfl
      | infinite negative => cases negative <;> rfl
      | finite negative m s h => exact absurd rfl ha
    rw [hother]
    exact ⟨nofun, fun h => absurd h.1 ha⟩

theorem toInt?_eq_some_iff {a : Floating F} {n : Int} :
    a.toInt? = some n ↔ a.isFinite = true ∧ a.units = n * F.unitsPerOne := by
  have hpos : (F.unitsPerOne : Int) ≠ 0 := by exact_mod_cast F.unitsPerOne_pos.ne'
  unfold toInt?
  constructor
  · intro h
    split at h
    · rename_i hwhole
      cases h
      exact ⟨hwhole.1, (Int.ediv_mul_cancel (Int.dvd_of_emod_eq_zero hwhole.2)).symm⟩
    · cases h
  · rintro ⟨hfinite, hunits⟩
    rw [hunits, if_pos ⟨hfinite, Int.mul_emod_left _ _⟩, Int.mul_ediv_cancel _ hpos]

/-- Values that are integers are in the order of these. -/
theorem less_iff_of_toInt? {a b : Floating F} {m n : Int} (ha : a.toInt? = some m)
    (hb : b.toInt? = some n) : Number.less a b = true ↔ m < n := by
  obtain ⟨hfa, hua⟩ := toInt?_eq_some_iff.1 ha
  obtain ⟨hfb, hub⟩ := toInt?_eq_some_iff.1 hb
  have hpos : (0 : Int) < F.unitsPerOne := by exact_mod_cast F.unitsPerOne_pos
  have hcompare : Number.less a b = (some (compare a.units b.units) == some .lt) :=
    congrArg (· == some Ordering.lt) (compare?_of_isFinite hfa hfb)
  rw [hcompare, beq_iff_eq, Option.some_inj, Int.compare_eq_lt, hua, hub,
    Int.mul_lt_mul_right hpos]

theorem isNegative_iff_of_toInt? {a : Floating F} {n : Int} (h : a.toInt? = some n) :
    Number.isNegative a = true ↔ n < 0 :=
  less_iff_of_toInt? h (toInt?_eq_some_iff.2 ⟨rfl, units_zero.trans (Int.zero_mul _).symm⟩)

/-! ## Magnitudes -/

/-- Whether a value is at least `2 ^ -k` in magnitude, as everything is that is not finite. -/
def IsAtLeast (a : Floating F) (k : Nat) : Prop :=
  a.isFinite = true → F.unitsPerOne ≤ a.magnitude * 2 ^ k

/-- Whether a value is finite and at most `2 ^ -k` in magnitude. -/
def IsAtMost (a : Floating F) (k : Nat) : Prop :=
  a.isFinite = true ∧ a.magnitude * 2 ^ k ≤ F.unitsPerOne

/-- All values lie below the power of two at which the infinite ones begin. -/
theorem magnitude_lt (a : Floating F) : a.magnitude < 2 ^ (F.precision + F.maxShift) := by
  cases a with
  | nan | infinite negative => exact Nat.two_pow_pos _
  | finite negative significand shift h =>
    rw [Nat.pow_add]
    exact Nat.mul_lt_mul_of_lt_of_le h.1 (Nat.pow_le_pow_right (by decide) h.2.1)
      (Nat.two_pow_pos _)

theorem isRounded_mul {a b : Floating F} (ha : a.isFinite = true) (hb : b.isFinite = true) :
    ∃ negative, IsRounded negative (F.rounded (a.magnitude * b.magnitude) F.unitsPerOne) (a.mul b) := by
  cases a with
  | nan | infinite negative => cases ha
  | finite m significand shift h =>
    cases b with
    | nan | infinite negative => cases hb
    | finite n significand' shift' h' =>
      exact ⟨m != n, isRounded_ofRatio _ _ F.unitsPerOne_pos⟩

theorem isFinite_of_mul {a b : Floating F} (h : (a.mul b).isFinite = true) :
    a.isFinite = true ∧ b.isFinite = true := by
  cases a with
  | nan => cases b <;> cases h
  | infinite m =>
    cases b with
    | nan | infinite n => cases h
    | finite n significand shift hb =>
      rw [mul] at h
      split at h <;> cases h
  | finite m significand shift ha =>
    cases b with
    | nan => cases h
    | infinite n =>
      rw [mul] at h
      split at h <;> cases h
    | finite n significand' shift' hb => exact ⟨rfl, rfl⟩

theorem magnitude_one :
    (one : Floating F).isFinite = true ∧ (one : Floating F).magnitude = F.unitsPerOne := by
  have hrounded : F.rounded F.unitsPerOne 1 = F.unitsPerOne := by
    rw [F.unitsPerOne_eq]
    simpa using F.rounded_two_pow F.unitBits Nat.one_pos
  have h := isRounded_ofRatio (F := F) false F.unitsPerOne Nat.one_pos
  rw [hrounded] at h
  have hone : (one : Floating F) = ofRatio false F.unitsPerOne 1 := by
    have hnonneg : ¬ (1 * (F.unitsPerOne : Int)) < 0 := by omega
    show ofUnits (1 * F.unitsPerOne) = _
    rw [ofUnits, decide_eq_false hnonneg, Int.one_mul, Int.natAbs_natCast]
  rw [hone]
  exact h.finite le_rfl

theorem IsAtLeast.mul {a b : Floating F} {j k : Nat} (ha : a.IsAtLeast j) (hb : b.IsAtLeast k)
    (hjk : j + k ≤ F.unitBits) : (a.mul b).IsAtLeast (j + k) := by
  intro hfinite
  obtain ⟨hfa, hfb⟩ := isFinite_of_mul hfinite
  obtain ⟨negative, ⟨hinfinite, -⟩ | ⟨-, hmagnitude⟩⟩ := isRounded_mul hfa hfb
  · rw [hinfinite] at hfinite
    cases hfinite
  rw [hmagnitude]
  apply F.le_rounded_mul_two_pow hjk
  calc F.unitsPerOne * F.unitsPerOne
      ≤ a.magnitude * 2 ^ j * (b.magnitude * 2 ^ k) := Nat.mul_le_mul (ha hfa) (hb hfb)
    _ = a.magnitude * b.magnitude * 2 ^ (j + k) := by rw [Nat.pow_add]; ring

theorem IsAtMost.mul {a b : Floating F} {j k : Nat} (ha : a.IsAtMost j) (hb : b.IsAtMost k) :
    (a.mul b).IsAtMost (j + k) := by
  obtain ⟨hfa, hma⟩ := ha
  obtain ⟨hfb, hmb⟩ := hb
  have hrounded : F.rounded (a.magnitude * b.magnitude) F.unitsPerOne * 2 ^ (j + k) ≤
      F.unitsPerOne := by
    apply F.rounded_mul_two_pow_le
    calc a.magnitude * b.magnitude * 2 ^ (j + k)
        = a.magnitude * 2 ^ j * (b.magnitude * 2 ^ k) := by rw [Nat.pow_add]; ring
      _ ≤ F.unitsPerOne * F.unitsPerOne := Nat.mul_le_mul hma hmb
  obtain ⟨negative, hproduct⟩ := isRounded_mul hfa hfb
  obtain ⟨hfinite, hmagnitude⟩ :=
    hproduct.finite ((Nat.le_mul_of_pos_right _ (Nat.two_pow_pos _)).trans hrounded)
  exact ⟨hfinite, by rwa [hmagnitude]⟩

theorem isAtLeast_one : (one : Floating F).IsAtLeast 0 := by
  intro _
  rw [magnitude_one.2, Nat.pow_zero, Nat.mul_one]

theorem isAtMost_one : (one : Floating F).IsAtMost 0 := by
  refine ⟨magnitude_one.1, ?_⟩
  rw [magnitude_one.2, Nat.pow_zero, Nat.mul_one]

theorem IsAtLeast.isZero_eq_false {a : Floating F} {k : Nat} (h : a.IsAtLeast k) :
    isZero a = false := by
  rw [← Bool.not_eq_true, isZero_iff]
  rintro ⟨hfinite, hmagnitude⟩
  have hle := h hfinite
  have hpos := F.unitsPerOne_pos
  rw [hmagnitude, Nat.zero_mul] at hle
  omega

/-- The least positive value is `2 ^ -F.unitBits`. -/
theorem IsAtMost.isZero {a : Floating F} {k : Nat} (h : a.IsAtMost k) (hk : F.unitBits < k) :
    isZero a = true := by
  rw [isZero_iff]
  refine ⟨h.1, Nat.eq_zero_of_not_pos fun hpos => ?_⟩
  have hle := h.2
  have hpower : 2 ^ F.unitBits < 2 ^ k := Nat.pow_lt_pow_right (by decide) hk
  have hmultiple : 1 * 2 ^ k ≤ a.magnitude * 2 ^ k := Nat.mul_le_mul_right _ hpos
  rw [F.unitsPerOne_eq] at hle
  omega

theorem isAtMost_of_isZero {a : Floating F} (h : isZero a = true) (k : Nat) : a.IsAtMost k := by
  obtain ⟨hfinite, hmagnitude⟩ := isZero_iff.1 h
  refine ⟨hfinite, ?_⟩
  rw [hmagnitude, Nat.zero_mul]
  exact Nat.zero_le _

/-! ## Squares -/

/-- A value squared. -/
def square (a : Floating F) : Floating F :=
  a.mul a

end Floating

/-- The magnitude of the square of a value, from that of the value. -/
def Format.squared (F : Format) (units : Nat) : Nat :=
  F.rounded (units * units) F.unitsPerOne

namespace Floating

theorem magnitude_square_le {a : Floating F} {m : Nat} (ha : a.isFinite = true)
    (hm : a.magnitude ≤ m) (hone : m ≤ F.unitsPerOne) :
    a.square.isFinite = true ∧ a.square.magnitude ≤ F.squared m ∧ F.squared m ≤ F.unitsPerOne := by
  have hpos := F.unitsPerOne_pos
  have hmono : F.rounded (a.magnitude * a.magnitude) F.unitsPerOne ≤ F.squared m :=
    F.rounded_mono hpos hpos (Nat.mul_le_mul_right _ (Nat.mul_le_mul hm hm))
  have hsquared : F.squared m ≤ F.unitsPerOne := by
    rw [F.unitsPerOne_eq] at hone ⊢
    apply F.rounded_le_two_pow hpos
    rw [F.unitsPerOne_eq]
    exact Nat.mul_le_mul hone hone
  obtain ⟨negative, hproduct⟩ := isRounded_mul ha ha
  obtain ⟨hfinite, hmagnitude⟩ := hproduct.finite (hmono.trans hsquared)
  exact ⟨hfinite, hmagnitude.trans_le hmono, hsquared⟩

theorem magnitude_square_iterate_le {a : Floating F} {m : Nat} (ha : a.isFinite = true)
    (hm : a.magnitude ≤ m) (hone : m ≤ F.unitsPerOne) (i : Nat) :
    (square^[i] a).isFinite = true ∧ (square^[i] a).magnitude ≤ F.squared^[i] m ∧
      F.squared^[i] m ≤ F.unitsPerOne := by
  induction i with
  | zero => exact ⟨ha, hm, hone⟩
  | succ i ih =>
    rw [Function.iterate_succ_apply', Function.iterate_succ_apply']
    exact magnitude_square_le ih.1 ih.2.1 ih.2.2

/-- The largest magnitude below one. -/
theorem magnitude_le_of_lt_one {a : Floating F} (h : a.magnitude < F.unitsPerOne) :
    a.magnitude ≤ F.unitsPerOne - 2 ^ (F.unitBits - F.precision) := by
  have hprecision := F.one_lt_precision
  have hbits := F.precision_le_unitBits
  rw [F.unitsPerOne_eq] at h ⊢
  have hsplit : 2 ^ F.unitBits = 2 ^ F.precision * 2 ^ (F.unitBits - F.precision) := by
    rw [Nat.mul_comm, ← F.two_pow_unitBits_eq hbits]
  have hother : a.magnitude = 0 → a.magnitude ≤ 2 ^ F.unitBits - 2 ^ (F.unitBits - F.precision) :=
    fun hzero => hzero ▸ Nat.zero_le _
  cases a with
  | nan | infinite negative => exact hother rfl
  | finite negative significand shift hcanonical =>
    have hlt : significand < 2 ^ F.precision := hcanonical.1
    have hnormal : 2 ^ (F.precision - 1) ≤ significand ∨ shift = 0 := hcanonical.2.2
    have hvalue : (finite negative significand shift hcanonical).magnitude =
        significand * 2 ^ shift := rfl
    rw [hvalue] at h ⊢
    by_cases hshift : shift ≤ F.unitBits - F.precision
    · calc significand * 2 ^ shift
          ≤ (2 ^ F.precision - 1) * 2 ^ (F.unitBits - F.precision) :=
            Nat.mul_le_mul (by omega) (Nat.pow_le_pow_right (by decide) hshift)
        _ = 2 ^ F.unitBits - 2 ^ (F.unitBits - F.precision) := by
            rw [Nat.sub_mul, Nat.one_mul, ← hsplit]
    · -- A full significand at a larger shift is at least one.
      exfalso
      have hfull : 2 ^ F.unitBits ≤ significand * 2 ^ shift := by
        calc 2 ^ F.unitBits
            ≤ 2 ^ (F.precision - 1 + shift) := Nat.pow_le_pow_right (by decide) (by omega)
          _ = 2 ^ (F.precision - 1) * 2 ^ shift := Nat.pow_add _ _ _
          _ ≤ significand * 2 ^ shift :=
            Nat.mul_le_mul_right _ (hnormal.resolve_right (by omega))
      omega

theorem squared_iterate_eq_zero (F : Format) :
    F.squared^[63] (F.unitsPerOne - 2 ^ (F.unitBits - F.precision)) = 0 := by
  cases F <;> decide +kernel

end Floating

end Formula
