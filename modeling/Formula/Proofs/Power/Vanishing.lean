import Formula.Proofs.Floating.Magnitude
import Formula.Proofs.Power.Exact

/-!
# Powers that divide by zero

A power with a negative exponent is the reciprocal of the product that repeated squaring gives, and
it is refused where that product is zero.  On integers the base itself is asked, and the law
`RefusesExactlyZero` holds.  On floating-point numbers a product may be rounded to zero although the
base is not (`Vanishes`), and an exponent beyond 64 bits is never worked off at all;
`refusesExactlyZero_iff` says that these are the only exceptions.

How small a base must be to vanish is measured by powers of two (`Floating.IsAtLeast`,
`Floating.IsAtMost`), which rounding never crosses.
-/

namespace Formula

open Number

/-! ## The law -/

section Law

variable {α : Type} [Number α]

/-- The law that a power divides by zero exactly if zero is raised to a negative exponent. -/
def RefusesExactlyZero (base exponent : α) : Prop :=
  InfixOp.power.apply base exponent = .error .divisionByZero ↔
    isZero base = true ∧ isNegative exponent = true

/-- Whether the product of `n` copies of a value, worked out by repeated squaring, is a zero. -/
def Vanishes (a : α) (n : Nat) : Prop :=
  ∃ product, timesPower? one a n = some product ∧ isZero product = true

end Law

theorem BoundedInt.refusesExactlyZero {w : Width} (base exponent : BoundedInt w) :
    RefusesExactlyZero base exponent := by
  rw [RefusesExactlyZero, power_eq_integralPower, isZero_iff, isNegative_iff]
  by_cases hsign : exponent.val < 0
  · have hpos : 0 < exponent.val.natAbs := by omega
    rw [integralPower, if_pos ⟨hsign, rfl⟩]
    by_cases hbase : base.val = 0
    · rw [reciprocalPower, if_pos (isZero_iff.2 hbase)]
      exact ⟨fun _ => ⟨hbase, hsign⟩, fun _ => rfl⟩
    · obtain ⟨r, hr, -⟩ := exists_reciprocalPower base hpos hbase
      rw [hr]
      exact iff_of_false (by simp) fun h => hbase h.1
  · rw [integralPower_of_nonneg base (by omega)]
    cases (ofInt? (base.val ^ exponent.val.toNat) : Option (BoundedInt w)) with
    | none =>
      show Except.error (Failure.overflow "**") = .error .divisionByZero ↔ _
      exact iff_of_false (by simp) fun h => hsign h.2
    | some r =>
      show Except.ok r = .error Failure.divisionByZero ↔ _
      exact iff_of_false (by simp) fun h => hsign h.2

namespace Floating

variable {F : Format}

/-! ## Multiplying up -/

/-- No product of floating-point numbers is lost, and what products inherit with the sum of its
exponents, up to a limit, powers inherit with the multiple. -/
theorem exists_of_multipliesUp {P : Floating F → Nat → Prop} {limit : Nat}
    (hmul : ∀ {a b : Floating F} {j k : Nat}, P a j → P b k → j + k ≤ limit → P (a.mul b) (j + k))
    {a b : Floating F} {n : Nat} {result : Option (Floating F)} (h : MultipliesUp a b n result)
    {j k : Nat} (ha : P a j) (hb : P b k) (hlimit : j + k * n ≤ limit) :
    ∃ c, result = some c ∧ P c (j + k * n) := by
  induction h generalizing j k with
  | done a b => exact ⟨a, rfl, ha⟩
  | lostProduct n hlost => cases hlost
  | lostFactor _ _ hlost => cases hlost
  | @multiply a b a' n result hkept _ ih =>
    obtain rfl := Option.some.inj hkept
    have hsum : j + k * (2 * n + 1) = j + k + k * (2 * n) := by ring
    rw [hsum] at hlimit ⊢
    exact ih (hmul ha hb (by omega)) hb hlimit
  | @square a b b' n result hpos hkept _ ih =>
    obtain rfl := Option.some.inj hkept
    have hsum : j + k * (2 * n) = j + (k + k) * n := by ring
    have hle : k + k ≤ (k + k) * n := Nat.le_mul_of_pos_right _ hpos
    rw [hsum] at hlimit ⊢
    exact ih ha (hmul hb hb (by omega)) hlimit

theorem exists_timesPower? (a b : Floating F) (n : Nat) : ∃ c, timesPower? a b n = some c := by
  obtain ⟨c, hc, -⟩ := exists_of_multipliesUp (P := fun _ _ => True) (fun _ _ _ => trivial)
    (multipliesUp_timesPower? a b n) (j := 0) (k := 0) trivial trivial le_rfl
  exact ⟨c, hc⟩

/-- A power divides by zero exactly if its exponent is negative, fits into 64 bits, and has a product
that vanishes. -/
theorem power_eq_divisionByZero_iff {base exponent : Floating F} {n : Int}
    (h : Number.toInt? exponent = some n) :
    InfixOp.power.apply base exponent = .error .divisionByZero ↔
      n < 0 ∧ Width.w64.Holds n ∧ Vanishes base n.natAbs := by
  have hintegral : isIntegral exponent = true := by rw [isIntegral, h]; rfl
  rw [InfixOp.apply, power, if_pos hintegral, toInt64?_eq_ite h]
  by_cases hfits : Width.w64.Holds n
  · obtain ⟨product, hproduct⟩ := exists_timesPower? (one : Floating F) base n.natAbs
    have hvanishes : Vanishes base n.natAbs ↔ isZero product = true := by
      rw [Vanishes, hproduct]
      constructor
      · rintro ⟨_, h, hzero⟩
        rwa [Option.some.inj h]
      · intro hzero
        exact ⟨product, rfl, hzero⟩
    have hinteger : ¬ (n < 0 ∧ isInteger (Floating F) = true) := fun h => by cases h.2
    rw [if_pos hfits, hvanishes]
    dsimp only
    rw [integralPower, if_neg hinteger, hproduct]
    dsimp only
    by_cases hsign : n < 0
    · rw [if_pos hsign, reciprocal]
      split
      · exact ⟨fun _ => ⟨hsign, hfits, ‹_›⟩, fun _ => rfl⟩
      · exact iff_of_false (by simp) fun h => absurd h.2.2 ‹_›
    · rw [if_neg hsign]
      exact iff_of_false (by simp) fun h => hsign h.1
  · rw [if_neg hfits]
    exact iff_of_false (by simp) fun h => hfits h.2.1

/-! ## Which bases vanish -/

theorem not_vanishes_of_isAtLeast {a : Floating F} {n k : Nat} (h : a.IsAtLeast k)
    (hk : k * n ≤ F.unitBits) : ¬ Vanishes a n := by
  rintro ⟨product, hproduct, hzero⟩
  obtain ⟨c, hc, hleast⟩ := exists_of_multipliesUp IsAtLeast.mul
    (multipliesUp_timesPower? one a n) isAtLeast_one h (by omega)
  rw [hproduct, Option.some_inj] at hc
  rw [hc, hleast.isZero_eq_false] at hzero
  cases hzero

theorem vanishes_of_isAtMost {a : Floating F} {n k : Nat} (h : a.IsAtMost k)
    (hk : F.unitBits < k * n) : Vanishes a n := by
  obtain ⟨c, hc, hmost⟩ := exists_of_multipliesUp (fun ha hb _ => IsAtMost.mul ha hb)
    (multipliesUp_timesPower? one a n) isAtMost_one h le_rfl
  exact ⟨c, hc, hmost.isZero (by omega)⟩

theorem vanishes_of_isZero {a : Floating F} {n : Nat} (h : isZero a = true) (hn : 0 < n) :
    Vanishes a n :=
  vanishes_of_isAtMost (isAtMost_of_isZero h (F.unitBits + 1))
    (Nat.lt_of_lt_of_le (Nat.lt_succ_self _) (Nat.le_mul_of_pos_right _ hn))

/-! ## The largest exponent -/

theorem timesPower?_two_pow (a b : Floating F) (i : Nat) :
    timesPower? a b (2 ^ i) = some (a.mul (square^[i] b)) := by
  induction i generalizing b with
  | zero =>
    rw [timesPower?]
    rfl
  | succ i ih =>
    have hpos : 0 < 2 ^ i := Nat.two_pow_pos i
    have hzero : ¬ 2 ^ (i + 1) = 0 := by omega
    have heven : ¬ 2 ^ (i + 1) % 2 = 1 := by omega
    have hhalf : 2 ^ (i + 1) / 2 = 2 ^ i := by omega
    rw [timesPower?, if_neg hzero, if_neg heven, hhalf, Function.iterate_succ_apply, ← ih]
    exact if_neg hpos.ne'

/-- Between -1 and 1 every base vanishes at the exponent of largest magnitude. -/
theorem vanishes_of_lt_one {a : Floating F} (ha : a.isFinite = true)
    (h : a.magnitude < F.unitsPerOne) : Vanishes a (2 ^ 63) := by
  obtain ⟨hfinite, hle, -⟩ :=
    magnitude_square_iterate_le ha (magnitude_le_of_lt_one h) (Nat.sub_le _ _) 63
  rw [squared_iterate_eq_zero] at hle
  have hzero : isZero (square^[63] a) = true := isZero_iff.2 ⟨hfinite, Nat.le_zero.1 hle⟩
  have hmost := isAtMost_one.mul (isAtMost_of_isZero hzero (F.unitBits + 1))
  exact ⟨_, timesPower?_two_pow one a 63, hmost.isZero (by omega)⟩

end Floating

/-- On integers a power divides by zero exactly where zero is raised to a negative exponent.  On
floating-point numbers it does so too, unless zero is raised to an exponent below those of 64 bits or
another base vanishes at an exponent of 64 bits.  A base of magnitude at least `2 ^ -k` vanishes at no
exponent up to `F.unitBits / k`, and one of magnitude at most `2 ^ -k` vanishes at all others; at the
largest of 64 bits every base between -1 and 1 does. -/
theorem refusesExactlyZero_iff {F : Format} (base exponent : Floating F) {n : Int}
    (h : toInt? exponent = some n) :
    (∀ (w : Width) (b e : BoundedInt w), RefusesExactlyZero b e) ∧
    (RefusesExactlyZero base exponent ↔
      (isZero base = true → n < 0 → Width.w64.Holds n) ∧
      (isZero base = false → n < 0 → Width.w64.Holds n → ¬ Vanishes base n.natAbs)) ∧
    (∀ k,
      (base.IsAtLeast k → k * n.natAbs ≤ F.unitBits → ¬ Vanishes base n.natAbs) ∧
      (base.IsAtMost k → F.unitBits < k * n.natAbs → Vanishes base n.natAbs)) ∧
    (base.isFinite = true → base.magnitude < F.unitsPerOne → Vanishes base (2 ^ 63)) := by
  refine ⟨fun w => BoundedInt.refusesExactlyZero, ?_,
    fun k => ⟨Floating.not_vanishes_of_isAtLeast, Floating.vanishes_of_isAtMost⟩,
    Floating.vanishes_of_lt_one⟩
  rw [RefusesExactlyZero, Floating.power_eq_divisionByZero_iff h, Floating.isNegative_iff_of_toInt? h]
  by_cases hbase : isZero base = true
  · constructor
    · intro hlaw
      exact ⟨fun _ hsign => (hlaw.2 ⟨hbase, hsign⟩).2.1, fun hnonzero => by simp [hbase] at hnonzero⟩
    · rintro ⟨hfits, -⟩
      refine ⟨fun hpower => ⟨hbase, hpower.1⟩, fun hzero => ?_⟩
      have hsign := hzero.2
      exact ⟨hsign, hfits hbase hsign, Floating.vanishes_of_isZero hbase (by omega)⟩
  · have hnonzero : isZero base = false := Bool.eq_false_iff.2 hbase
    constructor
    · intro hlaw
      refine ⟨fun hzero => absurd hzero hbase, fun _ hsign hfits hvanishes => ?_⟩
      exact hbase (hlaw.1 ⟨hsign, hfits, hvanishes⟩).1
    · rintro ⟨-, hrest⟩
      refine ⟨fun hpower => ?_, fun hzero => absurd hzero.1 hbase⟩
      obtain ⟨hsign, hfits, hvanishes⟩ := hpower
      exact absurd hvanishes (hrest hnonzero hsign hfits)

/-- One half, raised to the largest exponent at which it does not vanish. -/
theorem refusesExactlyZero_of_half :
    RefusesExactlyZero ((Floating.ofInt 1).div (Floating.ofInt 2) : Floating .binary64)
      (Floating.ofInt (-1074)) := by
  have hinteger : toInt? (Floating.ofInt (-1074) : Floating .binary64) = some (-1074) := by
    decide +kernel
  have hhalf : ((Floating.ofInt 1).div (Floating.ofInt 2) : Floating .binary64).IsAtLeast 1 := by
    intro _
    decide +kernel
  obtain ⟨-, hiff, hbounds, -⟩ := refusesExactlyZero_iff
    ((Floating.ofInt 1).div (Floating.ofInt 2)) (Floating.ofInt (-1074)) hinteger
  refine hiff.2 ⟨fun hzero => ?_, fun _ _ _ => (hbounds 1).1 hhalf (by decide)⟩
  revert hzero
  decide +kernel

/-- One half vanishes at the next exponent, and zero has an infinite power with an exponent beyond 64
bits. -/
theorem not_refusesExactlyZero_of_half_and_zero :
    InfixOp.power.apply ((Floating.ofInt 1).div (Floating.ofInt 2) : Floating .binary64)
      (Floating.ofInt (-1075)) = .error .divisionByZero ∧
    ¬ RefusesExactlyZero ((Floating.ofInt 1).div (Floating.ofInt 2) : Floating .binary64)
      (Floating.ofInt (-1075)) ∧
    InfixOp.power.apply (Floating.zero false : Floating .binary64)
      (Floating.ofInt (-0x10000000000000000)) = .ok (.infinite false) ∧
    ¬ RefusesExactlyZero (Floating.zero false : Floating .binary64)
      (Floating.ofInt (-0x10000000000000000)) := by
  have hhalf : InfixOp.power.apply ((Floating.ofInt 1).div (Floating.ofInt 2) : Floating .binary64)
      (Floating.ofInt (-1075)) = .error .divisionByZero := by decide +kernel
  have hzero : InfixOp.power.apply (Floating.zero false : Floating .binary64)
      (Floating.ofInt (-0x10000000000000000)) = .ok (.infinite false) := by decide +kernel
  refine ⟨hhalf, fun hlaw => ?_, hzero, fun hlaw => ?_⟩
  · have hbase := (hlaw.1 hhalf).1
    revert hbase
    decide +kernel
  · have hrefused := hlaw.2 ⟨by decide +kernel, by decide +kernel⟩
    rw [hzero] at hrefused
    cases hrefused

end Formula
