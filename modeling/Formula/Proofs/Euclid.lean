import Mathlib.Algebra.Order.Group.Unbundled.Int
import Mathlib.Data.Int.GCD
import Formula.Library.Basic
import Formula.Proofs.Division

/-!
# Greatest common divisors of integers

`DividesDown` is the course of Euclid's algorithm, one division at a time, in any number type.  On
integers that are not negative it always comes to a divisor of zero, since each remainder is smaller
than the divisor and the width holds it, and it keeps the common divisors of the two numbers
(`dividesDown_gcdWithin`).  The magnitudes it starts with exist unless one of the integers is the
smallest of the width, and so `gcd_eq_greatest` says when there is a result and which.
-/

namespace Formula.Library

open Number

/-! ## Euclid's algorithm -/

/-- What dividing `a` by `b`, then `b` by the remainder, and so on, leads to, however many divisions
it takes: the last divisor before zero, or the complaint about a remainder that is lost. -/
inductive DividesDown {α : Type} [Number α] : α → α → Except String α → Prop
  | done (a : α) {b : α} (hb : isZero b = true) : DividesDown a b (.ok a)
  | lost {a b : α} (hb : isZero b = false) (hr : remainder? a b = none) :
    DividesDown a b (.error s!"Remainder of {text a} by {text b} overflows")
  | divide {a b r : α} {result : Except String α} (hb : isZero b = false)
      (hr : remainder? a b = some r) (rest : DividesDown b r result) : DividesDown a b result

/-! ## Integers of a fixed width -/

variable {w : Width} {a b : BoundedInt w}

/-- The remainder of integers that are not negative is kept, and smaller than the divisor. -/
theorem exists_remainder? (ha : 0 ≤ a.val) (hb : 0 < b.val) :
    ∃ r : BoundedInt w, remainder? a b = some r ∧ r.val = a.val % b.val := by
  have hbound := w.one_lt_bound
  obtain ⟨r, hr, hval⟩ :=
    BoundedInt.exists_remainder? (a := a) (b := b) (by omega) (by omega)
  exact ⟨r, hr, hval.trans (Int.tmod_eq_emod_of_nonneg ha)⟩

theorem dividesDown_of_eq_zero (ha : 0 ≤ a.val) (hb : b.val = 0) :
    DividesDown a b (.ok a) ∧ a.val = Int.gcd a.val b.val := by
  refine ⟨.done a (BoundedInt.isZero_iff.2 hb), ?_⟩
  rw [hb, Int.gcd_zero_right, Int.natAbs_of_nonneg ha]

/-- Euclid's algorithm ends with the greatest common divisor, after no more divisions than the
divisor has units. -/
theorem dividesDown_gcdWithin {rounds : Nat} (ha : 0 ≤ a.val) (hb : 0 ≤ b.val)
    (hrounds : b.val ≤ rounds) :
    ∃ g : BoundedInt w, gcdWithin rounds a b = .ok g ∧ DividesDown a b (.ok g) ∧
      g.val = Int.gcd a.val b.val := by
  induction rounds generalizing a b with
  | zero => exact ⟨a, rfl, dividesDown_of_eq_zero ha (by omega)⟩
  | succ rounds ih =>
    rw [gcdWithin]
    by_cases hzero : b.val = 0
    · rw [if_pos (BoundedInt.isZero_iff.2 hzero)]
      exact ⟨a, rfl, dividesDown_of_eq_zero ha hzero⟩
    · have hpos : 0 < b.val := by omega
      have hnonzero : ¬ isZero b = true := fun h => hzero (BoundedInt.isZero_iff.1 h)
      obtain ⟨r, hr, hval⟩ := exists_remainder? ha hpos
      have hnonneg := Int.emod_nonneg a.val hzero
      have hlt := Int.emod_lt_of_pos a.val hpos
      obtain ⟨g, hg, hdivides, hgcd⟩ := ih (a := b) (b := r) hb (by omega) (by omega)
      rw [if_neg hnonzero, hr]
      refine ⟨g, hg, .divide (Bool.eq_false_iff.2 hnonzero) hr hdivides, ?_⟩
      rw [hgcd, hval, Int.gcd_comm, Int.gcd_emod]

theorem exists_magnitude (ha : a.val ≠ -w.bound) :
    ∃ x : BoundedInt w, magnitude a = .ok x ∧ x.val = a.val.natAbs := by
  by_cases hneg : a.val < 0
  · have hholds : w.Holds (-a.val) := by
      have hbelow := a.neg_bound_le
      have hbound := w.one_lt_bound
      constructor <;> omega
    have hkept : neg? a = some ⟨-a.val, hholds.1, hholds.2⟩ := BoundedInt.ofInt?_of_holds hholds
    refine ⟨_, by rw [magnitude, if_pos (BoundedInt.isNegative_iff.2 hneg), hkept], ?_⟩
    change -a.val = _
    omega
  · have hsign : ¬ isNegative a = true := fun h => hneg (BoundedInt.isNegative_iff.1 h)
    exact ⟨a, by rw [magnitude, if_neg hsign], by omega⟩

theorem magnitude_eq_error (ha : a.val = -w.bound) :
    magnitude a = .error s!"Magnitude of {text a} overflows" := by
  have hneg : a.val < 0 := by
    have hbound := w.one_lt_bound
    omega
  have hlost : neg? a = none := BoundedInt.ofInt?_eq_none_iff.2 (by omega)
  rw [magnitude, if_pos (BoundedInt.isNegative_iff.2 hneg), hlost]

theorem gcd_eq (a b : BoundedInt w) :
    gcd a b = magnitude a >>= fun x => magnitude b >>= fun y => gcdWithin b.val.natAbs x y :=
  rfl

theorem exists_gcd (ha : a.val ≠ -w.bound) (hb : b.val ≠ -w.bound) :
    ∃ g : BoundedInt w, gcd a b = .ok g ∧ g.val = Int.gcd a.val b.val ∧
      ∃ x y, magnitude a = .ok x ∧ magnitude b = .ok y ∧ DividesDown x y (.ok g) := by
  obtain ⟨x, hx, hxval⟩ := exists_magnitude ha
  obtain ⟨y, hy, hyval⟩ := exists_magnitude hb
  have hrounds : y.val ≤ (b.val.natAbs : Int) := hyval.le
  obtain ⟨g, hg, hdivides, hgcd⟩ :=
    dividesDown_gcdWithin (a := x) (b := y) (by omega) (by omega) hrounds
  refine ⟨g, ?_, ?_, x, y, hx, hy, hdivides⟩
  · rw [gcd_eq, hx, hy]
    exact hg
  · rw [hgcd, hxval, hyval]
    rfl

theorem gcd_eq_ok {g : BoundedInt w} (ha : a.val ≠ -w.bound) (hb : b.val ≠ -w.bound)
    (hg : g.val = Int.gcd a.val b.val) : gcd a b = .ok g := by
  obtain ⟨g', hgcd, hval, -⟩ := exists_gcd ha hb
  rw [hgcd, BoundedInt.ext (hval.trans hg.symm)]

theorem gcd_eq_error (h : a.val = -w.bound ∨ b.val = -w.bound) :
    ∃ x : BoundedInt w, x.val = -w.bound ∧
      gcd a b = .error s!"Magnitude of {text x} overflows" := by
  rw [gcd_eq]
  by_cases ha : a.val = -w.bound
  · exact ⟨a, ha, by rw [magnitude_eq_error ha]; rfl⟩
  · have hb := h.resolve_left ha
    obtain ⟨x, hx, -⟩ := exists_magnitude ha
    exact ⟨b, hb, by rw [hx, magnitude_eq_error hb]; rfl⟩

/-- Two integers other than the smallest have a greatest common divisor, which Euclid's algorithm
comes to without losing a remainder.  It depends on neither their order nor their signs.  The
smallest integer has no magnitude to divide. -/
theorem gcd_eq_greatest (a b : BoundedInt w) :
    (a.val ≠ -w.bound → b.val ≠ -w.bound →
      ∃ g, gcd a b = .ok g ∧
        (∃ x y, magnitude a = .ok x ∧ magnitude b = .ok y ∧ DividesDown x y (.ok g)) ∧
        0 ≤ g.val ∧ g.val ∣ a.val ∧ g.val ∣ b.val ∧
        (∀ d : Int, d ∣ a.val → d ∣ b.val → d ∣ g.val) ∧
        (a.val = 0 → b.val = 0 → g.val = 0) ∧
        gcd b a = .ok g ∧
        ∀ a' b' : BoundedInt w, a'.val.natAbs = a.val.natAbs → b'.val.natAbs = b.val.natAbs →
          gcd a' b' = .ok g) ∧
    (a.val = -w.bound ∨ b.val = -w.bound →
      ∃ x : BoundedInt w, x.val = -w.bound ∧
        gcd a b = .error s!"Magnitude of {text x} overflows") := by
  refine ⟨fun ha hb => ?_, gcd_eq_error⟩
  obtain ⟨g, hg, hval, hdivides⟩ := exists_gcd ha hb
  refine ⟨g, hg, hdivides, ?_, ?_, ?_, fun d hda hdb => ?_, fun ha0 hb0 => ?_, ?_,
    fun a' b' ha' hb' => ?_⟩
  · rw [hval]
    exact Int.natCast_nonneg _
  · rw [hval]
    exact Int.gcd_dvd_left ..
  · rw [hval]
    exact Int.gcd_dvd_right ..
  · rw [hval]
    exact Int.dvd_coe_gcd hda hdb
  · rw [hval, ha0, hb0]
    rfl
  · exact gcd_eq_ok hb ha (by rw [hval, Int.gcd_comm])
  · have hbounds := a.holds_val
    have hbounds' := b.holds_val
    unfold Width.Holds at hbounds hbounds'
    refine gcd_eq_ok (by omega) (by omega) ?_
    rw [hval, Int.gcd, Int.gcd, ha', hb']

/-- The greatest common divisor of -12 and 18, with either sign of 12; the smallest 32-bit integer
has none with 18. -/
theorem gcd_eq_greatest_of_twelve_and_eighteen :
    (∃ g : BoundedInt .w64, gcd ⟨-12, by decide, by decide⟩ ⟨18, by decide, by decide⟩ = .ok g ∧
      g.val ∣ -12 ∧ g.val ∣ 18 ∧ 6 ∣ g.val ∧
      gcd ⟨12, by decide, by decide⟩ ⟨18, by decide, by decide⟩ = .ok g) ∧
    ∃ x : BoundedInt .w32, x.val = -0x80000000 ∧
      gcd ⟨18, by decide, by decide⟩ (⟨-0x80000000, by decide, by decide⟩ : BoundedInt .w32) =
        .error s!"Magnitude of {text x} overflows" := by
  constructor
  · obtain ⟨g, hg, -, -, hleft, hright, hgreatest, -, -, hsigns⟩ :=
      (gcd_eq_greatest (⟨-12, by decide, by decide⟩ : BoundedInt .w64)
        ⟨18, by decide, by decide⟩).1 (by decide) (by decide)
    exact ⟨g, hg, hleft, hright, hgreatest 6 (by decide) (by decide), hsigns _ _ rfl rfl⟩
  · exact (gcd_eq_greatest _ _).2 (.inr rfl)

end Formula.Library
