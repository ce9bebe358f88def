import Mathlib.Data.Nat.Log
import Mathlib.Tactic.Linarith
import Mathlib.Tactic.Ring
import Formula.Floating.Basic

/-!
# Rounding

`Format.rounded F n d` is the number of units that the ratio `n / d` of units is rounded to, before
anything is lost to the range of the format; `Floating.isRounded_ofRatio` says that
`Floating.ofRatio` gives a value of this magnitude, or an infinite one beyond the range.  Rounding is
monotone (`Format.rounded_mono`) and keeps powers of two (`Format.rounded_two_pow`), so that it never
crosses one.
-/

namespace Formula

/-! ## Whole numbers -/

theorem roundDiv_le_iff {n d k : Nat} (hd : 0 < d) :
    Floating.roundDiv n d ≤ k ↔ 2 * n < (2 * k + 1) * d ∨ 2 * n = (2 * k + 1) * d ∧ k % 2 = 0 := by
  have hsum := Nat.div_add_mod n d
  have hmod := Nat.mod_lt n hd
  have hodd : (2 * k + 1) * d = 2 * (d * k) + d := by ring
  rw [hodd]
  unfold Floating.roundDiv
  dsimp only
  generalize n / d = q at hsum ⊢
  rcases Nat.lt_trichotomy k q with hk | rfl | hk
  · have hle : d * (k + 1) ≤ d * q := Nat.mul_le_mul_left d hk
    rw [Nat.mul_add, Nat.mul_one] at hle
    split <;> omega
  · split <;> omega
  · have hle : d * (q + 1) ≤ d * k := Nat.mul_le_mul_left d hk
    rw [Nat.mul_add, Nat.mul_one] at hle
    split <;> omega

theorem roundDiv_mono {n d n' d' : Nat} (hd : 0 < d) (hd' : 0 < d') (h : n * d' ≤ n' * d) :
    Floating.roundDiv n d ≤ Floating.roundDiv n' d' := by
  rw [roundDiv_le_iff hd]
  generalize hk : Floating.roundDiv n' d' = k
  have hscaled : 2 * n * d' ≤ 2 * n' * d := by linarith
  have hswap : (2 * k + 1) * d' * d = (2 * k + 1) * d * d' := by ring
  rcases (roundDiv_le_iff hd').1 hk.le with hlt | ⟨heq, heven⟩
  · left
    have hlt' : 2 * n' * d < (2 * k + 1) * d' * d := Nat.mul_lt_mul_of_pos_right hlt hd
    exact Nat.lt_of_mul_lt_mul_right (by omega : 2 * n * d' < (2 * k + 1) * d * d')
  · have hle : 2 * n ≤ (2 * k + 1) * d := by
      rw [heq, hswap] at hscaled
      exact Nat.le_of_mul_le_mul_right hscaled hd'
    rcases Nat.lt_or_eq_of_le hle with hlt | heq
    · exact .inl hlt
    · exact .inr ⟨heq, heven⟩

theorem roundDiv_mul_self (k : Nat) {d : Nat} (hd : 0 < d) : Floating.roundDiv (k * d) d = k := by
  have hdiv : k * d / d = k := Nat.mul_div_cancel k hd
  have hmod : k * d % d = 0 := Nat.mul_mod_left k d
  simp only [Floating.roundDiv, hdiv, hmod]
  exact if_pos (.inl (by omega))

/-! ## Units -/

namespace Format

variable (F : Format) {n d n' d' : Nat}

/-- The exponent of two by which the significand of the ratio `n / d` of units is scaled. -/
def scale (n d : Nat) : Nat :=
  (n / d).log2 + 1 - F.precision

/-- The number of units that the ratio `n / d` of units is rounded to. -/
def rounded (n d : Nat) : Nat :=
  Floating.roundDiv n (d * 2 ^ F.scale n d) * 2 ^ F.scale n d

theorem one_lt_precision : 1 < F.precision := by
  cases F <;> decide

theorem precision_le_unitBits : F.precision ≤ F.unitBits := by
  cases F <;> decide

theorem unitBits_lt_maxShift : F.unitBits < F.maxShift := by
  cases F <;> decide

theorem unitsPerOne_eq : F.unitsPerOne = 2 ^ F.unitBits := by
  rw [unitsPerOne, Nat.pow_eq]

theorem unitsPerOne_pos : 0 < F.unitsPerOne := by
  rw [unitsPerOne_eq]
  exact Nat.two_pow_pos _

/-- Scaled down, a ratio has at most the digits of the precision. -/
theorem lt_mul_two_pow_scale (hd : 0 < d) : n < d * 2 ^ (F.scale n d + F.precision) := by
  have hlog : n / d < 2 ^ ((n / d).log2 + 1) := Nat.lt_log2_self
  have hle : 2 ^ ((n / d).log2 + 1) ≤ 2 ^ (F.scale n d + F.precision) :=
    Nat.pow_le_pow_right (by decide) (by unfold scale; omega)
  rw [Nat.mul_comm, ← Nat.div_lt_iff_lt_mul hd]
  omega

/-- A ratio that is scaled down at all keeps all digits of the precision. -/
theorem mul_two_pow_scale_le (hd : 0 < d) (hscale : 0 < F.scale n d) :
    d * 2 ^ (F.scale n d + F.precision - 1) ≤ n := by
  have hprecision := F.one_lt_precision
  have hlog : F.scale n d + F.precision - 1 = (n / d).log2 := by
    unfold scale at hscale ⊢
    omega
  have hne : n / d ≠ 0 := by
    intro hzero
    rw [scale, hzero, Nat.log2_zero] at hscale
    omega
  rw [hlog, Nat.mul_comm, ← Nat.le_div_iff_mul_le hd]
  exact Nat.log2_self_le hne

theorem scale_mono (hd : 0 < d) (hd' : 0 < d') (h : n * d' ≤ n' * d) :
    F.scale n d ≤ F.scale n' d' := by
  have hdiv : n / d ≤ n' / d' := by
    rw [Nat.le_div_iff_mul_le hd']
    apply Nat.le_of_mul_le_mul_right _ hd
    calc n / d * d' * d = n / d * d * d' := by ring
      _ ≤ n * d' := Nat.mul_le_mul_right d' (Nat.div_mul_le_self n d)
      _ ≤ n' * d := h
  have hlog : (n / d).log2 ≤ (n' / d').log2 := by
    rw [Nat.log2_eq_log_two, Nat.log2_eq_log_two]
    exact Nat.log_mono_right hdiv
  unfold scale
  omega

/-- The scaled significand of a ratio, which may be rounded up to the next power of two. -/
theorem roundDiv_scale_le (hd : 0 < d) :
    Floating.roundDiv n (d * 2 ^ F.scale n d) ≤ 2 ^ F.precision := by
  have hpos : 0 < d * 2 ^ F.scale n d := Nat.mul_pos hd (Nat.two_pow_pos _)
  have hlt := F.lt_mul_two_pow_scale (n := n) hd
  calc Floating.roundDiv n (d * 2 ^ F.scale n d)
      ≤ Floating.roundDiv (2 ^ F.precision * (d * 2 ^ F.scale n d)) (d * 2 ^ F.scale n d) := by
        apply roundDiv_mono hpos hpos
        apply Nat.mul_le_mul_right
        rw [Nat.pow_add] at hlt
        linarith
    _ = 2 ^ F.precision := roundDiv_mul_self _ hpos

theorem le_roundDiv_scale (hd : 0 < d) (hscale : 0 < F.scale n d) :
    2 ^ (F.precision - 1) ≤ Floating.roundDiv n (d * 2 ^ F.scale n d) := by
  have hpos : 0 < d * 2 ^ F.scale n d := Nat.mul_pos hd (Nat.two_pow_pos _)
  have hle := F.mul_two_pow_scale_le hd hscale
  have hprecision := F.one_lt_precision
  calc 2 ^ (F.precision - 1)
      = Floating.roundDiv (2 ^ (F.precision - 1) * (d * 2 ^ F.scale n d)) (d * 2 ^ F.scale n d) :=
        (roundDiv_mul_self _ hpos).symm
    _ ≤ Floating.roundDiv n (d * 2 ^ F.scale n d) := by
        apply roundDiv_mono hpos hpos
        apply Nat.mul_le_mul_right
        rw [Nat.add_sub_assoc hprecision.le, Nat.pow_add] at hle
        linarith

/-- Rounding is monotone. -/
theorem rounded_mono (hd : 0 < d) (hd' : 0 < d') (h : n * d' ≤ n' * d) :
    F.rounded n d ≤ F.rounded n' d' := by
  unfold rounded
  rcases Nat.lt_or_eq_of_le (F.scale_mono hd hd' h) with hlt | heq
  · -- A larger scale keeps a significand of at least half the next power of two.
    have hprecision := F.one_lt_precision
    calc Floating.roundDiv n (d * 2 ^ F.scale n d) * 2 ^ F.scale n d
        ≤ 2 ^ F.precision * 2 ^ F.scale n d :=
          Nat.mul_le_mul_right _ (F.roundDiv_scale_le hd)
      _ = 2 ^ (F.precision + F.scale n d) := (Nat.pow_add _ _ _).symm
      _ ≤ 2 ^ (F.precision - 1 + F.scale n' d') := Nat.pow_le_pow_right (by decide) (by omega)
      _ = 2 ^ (F.precision - 1) * 2 ^ F.scale n' d' := Nat.pow_add _ _ _
      _ ≤ Floating.roundDiv n' (d' * 2 ^ F.scale n' d') * 2 ^ F.scale n' d' :=
          Nat.mul_le_mul_right _ (F.le_roundDiv_scale hd' (by omega))
  · rw [heq]
    apply Nat.mul_le_mul_right
    apply roundDiv_mono (Nat.mul_pos hd (Nat.two_pow_pos _)) (Nat.mul_pos hd' (Nat.two_pow_pos _))
    rw [← Nat.mul_assoc, ← Nat.mul_assoc]
    exact Nat.mul_le_mul_right _ h

/-- What has no more digits than the precision is not rounded. -/
theorem rounded_eq_self {m : Nat} (k : Nat) (hm : m < 2 ^ F.precision) (hd : 0 < d) :
    F.rounded (m * 2 ^ k * d) d = m * 2 ^ k := by
  have hscale : F.scale (m * 2 ^ k * d) d ≤ k := by
    rw [scale, Nat.mul_div_cancel _ hd]
    by_cases hzero : m = 0
    · have hprecision := F.one_lt_precision
      rw [hzero, Nat.zero_mul, Nat.log2_zero]
      omega
    · have hne : m * 2 ^ k ≠ 0 := Nat.mul_ne_zero hzero (Nat.two_pow_pos k).ne'
      have hlt : m * 2 ^ k < 2 ^ (F.precision + k) := by
        rw [Nat.pow_add]
        exact Nat.mul_lt_mul_of_pos_right hm (Nat.two_pow_pos k)
      have hlog := (Nat.log2_lt hne).2 hlt
      omega
  rw [rounded]
  generalize F.scale (m * 2 ^ k * d) d = s at hscale
  have hsplit : m * 2 ^ k * d = m * 2 ^ (k - s) * (d * 2 ^ s) := by
    calc m * 2 ^ k * d = m * 2 ^ (k - s + s) * d := by rw [Nat.sub_add_cancel hscale]
      _ = m * 2 ^ (k - s) * (d * 2 ^ s) := by rw [Nat.pow_add]; ring
  rw [hsplit, roundDiv_mul_self _ (Nat.mul_pos hd (Nat.two_pow_pos _)), Nat.mul_assoc,
    ← Nat.pow_add, Nat.sub_add_cancel hscale]

/-- Powers of two are not rounded. -/
theorem rounded_two_pow (k : Nat) (hd : 0 < d) : F.rounded (2 ^ k * d) d = 2 ^ k := by
  have hprecision := F.one_lt_precision
  have hone : 1 < 2 ^ F.precision := Nat.one_lt_two_pow (by omega)
  simpa using F.rounded_eq_self k hone hd

theorem rounded_le_two_pow {k : Nat} (hd : 0 < d) (h : n ≤ 2 ^ k * d) : F.rounded n d ≤ 2 ^ k :=
  (F.rounded_mono hd hd (Nat.mul_le_mul_right d h)).trans_eq (F.rounded_two_pow k hd)

theorem two_pow_le_rounded {k : Nat} (hd : 0 < d) (h : 2 ^ k * d ≤ n) : 2 ^ k ≤ F.rounded n d :=
  (F.rounded_two_pow k hd).symm.trans_le (F.rounded_mono hd hd (Nat.mul_le_mul_right d h))

/-- Where all digits of the precision are kept, rounding loses at most one part in the power of two
that the precision sets. -/
theorem mul_le_rounded_mul (hd : 0 < d) (h : d * 2 ^ (F.precision - 1) ≤ n) :
    n * (2 ^ F.precision - 1) ≤ F.rounded n d * d * 2 ^ F.precision := by
  have hprecision := F.one_lt_precision
  have hdouble : 2 ^ F.precision = 2 * 2 ^ (F.precision - 1) := by
    rw [← Nat.pow_succ']
    congr 1
    omega
  have hfull : d * 2 ^ F.scale n d * 2 ^ (F.precision - 1) ≤ n := by
    rcases Nat.eq_zero_or_pos (F.scale n d) with hzero | hpos
    · rwa [hzero, Nat.pow_zero, Nat.mul_one]
    · have hle := F.mul_two_pow_scale_le hd hpos
      rwa [Nat.add_sub_assoc hprecision.le, Nat.pow_add, ← Nat.mul_assoc] at hle
  rw [rounded]
  have hunit : 0 < d * 2 ^ F.scale n d := Nat.mul_pos hd (Nat.two_pow_pos _)
  have hnear := (roundDiv_le_iff (n := n) hunit).1 le_rfl
  generalize Floating.roundDiv n (d * 2 ^ F.scale n d) = q at hnear
  have hhalf : 2 * n ≤ 2 * (q * (d * 2 ^ F.scale n d)) + d * 2 ^ F.scale n d := by
    rw [Nat.add_mul, Nat.one_mul, Nat.mul_assoc] at hnear
    omega
  have hscaled := Nat.mul_le_mul_right (2 ^ F.precision) hhalf
  have hpart : d * 2 ^ F.scale n d * 2 ^ F.precision ≤ 2 * n := by
    rw [hdouble]
    linarith
  rw [Nat.mul_sub, Nat.mul_one, Nat.sub_le_iff_le_add]
  calc n * 2 ^ F.precision
      ≤ q * (d * 2 ^ F.scale n d) * 2 ^ F.precision + n := by linarith
    _ = q * 2 ^ F.scale n d * d * 2 ^ F.precision + n := by ring

/-- What is at most half a unit is rounded to zero. -/
theorem rounded_eq_zero (hd : 0 < d) (h : 2 * n ≤ d) : F.rounded n d = 0 := by
  have hprecision := F.one_lt_precision
  have hscale : F.scale n d = 0 := by
    rw [scale, Nat.div_eq_of_lt (by omega), Nat.log2_zero]
    omega
  have hzero : Floating.roundDiv n d ≤ 0 := by
    rw [roundDiv_le_iff hd]
    omega
  rw [rounded, hscale, Nat.pow_zero, Nat.mul_one, Nat.mul_one]
  omega

end Format

/-! ## Values -/

namespace Floating

variable {F : Format}

/-- Whether a value is a rounded number of units: one of this magnitude, or an infinite one if the
number exceeds the format. -/
def IsRounded (negative : Bool) (units : Nat) (a : Floating F) : Prop :=
  a = infinite negative ∧ 2 ^ (F.precision + F.maxShift) ≤ units ∨
    a.isFinite = true ∧ a.magnitude = units

theorem isRounded_of_normal (negative : Bool) {m s : Nat} (hm : m < 2 ^ F.precision)
    (hnormal : 2 ^ (F.precision - 1) ≤ m ∨ s = 0) :
    IsRounded negative (m * 2 ^ s)
      (if h : F.Canonical m s then .finite negative m s h else .infinite negative) := by
  by_cases hs : s ≤ F.maxShift
  · right
    rw [dif_pos ⟨by rwa [Nat.pow_eq], hs, by rwa [Nat.pow_eq]⟩]
    exact ⟨rfl, rfl⟩
  · left
    rw [dif_neg fun h => hs h.2.1]
    refine ⟨rfl, ?_⟩
    have hprecision := F.one_lt_precision
    calc 2 ^ (F.precision + F.maxShift)
        ≤ 2 ^ (F.precision - 1 + s) := Nat.pow_le_pow_right (by decide) (by omega)
      _ = 2 ^ (F.precision - 1) * 2 ^ s := Nat.pow_add _ _ _
      _ ≤ m * 2 ^ s := Nat.mul_le_mul_right _ (hnormal.resolve_right (by omega))

theorem isRounded_ofSignificand (negative : Bool) {m s : Nat} (hm : m ≤ 2 ^ F.precision)
    (hnormal : 2 ^ (F.precision - 1) ≤ m ∨ s = 0) :
    IsRounded negative (m * 2 ^ s) (ofSignificand negative m s : Floating F) := by
  unfold ofSignificand
  simp only [Nat.pow_eq]
  by_cases hfull : m = 2 ^ F.precision
  · simp only [if_pos hfull]
    have hprecision := F.one_lt_precision
    have hvalue : m * 2 ^ s = 2 ^ (F.precision - 1) * 2 ^ (s + 1) := by
      rw [hfull, ← Nat.pow_add, ← Nat.pow_add]
      congr 1
      omega
    rw [hvalue]
    exact isRounded_of_normal negative (Nat.pow_lt_pow_right (by decide) (by omega)) (.inl le_rfl)
  · simp only [if_neg hfull]
    exact isRounded_of_normal negative (Nat.lt_of_le_of_ne hm hfull) hnormal

theorem isRounded_ofRatio (negative : Bool) (n : Nat) {d : Nat} (hd : 0 < d) :
    IsRounded negative (F.rounded n d) (ofRatio negative n d : Floating F) := by
  have hnormal : 2 ^ (F.precision - 1) ≤ roundDiv n (d * 2 ^ F.scale n d) ∨ F.scale n d = 0 := by
    rcases Nat.eq_zero_or_pos (F.scale n d) with hzero | hpos
    · exact .inr hzero
    · exact .inl (F.le_roundDiv_scale hd hpos)
  exact isRounded_ofSignificand negative (F.roundDiv_scale_le hd) hnormal

theorem IsRounded.finite_of_lt {negative : Bool} {units : Nat} {a : Floating F}
    (h : IsRounded negative units a) (hunits : units < 2 ^ (F.precision + F.maxShift)) :
    a.isFinite = true ∧ a.magnitude = units :=
  h.resolve_left fun hlarge => absurd hlarge.2 (Nat.not_le.2 hunits)

theorem IsRounded.finite {negative : Bool} {units : Nat} {a : Floating F}
    (h : IsRounded negative units a) (hunits : units ≤ F.unitsPerOne) :
    a.isFinite = true ∧ a.magnitude = units := by
  have hshift := F.unitBits_lt_maxShift
  rw [F.unitsPerOne_eq] at hunits
  exact h.finite_of_lt (hunits.trans_lt (Nat.pow_lt_pow_right (by decide) (by omega)))

end Floating

end Formula
