import Mathlib.Algebra.Order.Ring.Abs
import Formula.Operator.Apply
import Formula.Proofs.Width

/-!
# Powers of integers

`MultipliesUp` is the course of repeated squaring, one multiplication at a time, in any number type.
On integers of a fixed width it gives the exact power whenever the width can hold it, and is lost
only if the width cannot (`MultipliesUp.eq_ofInt?`): each product and each square on the way divides
the power, and the one square that could be as large as the range and still lead to the smallest
integer would have to be the bound itself, which is no square.  `power_eq_exact` puts this together
with the reciprocals.
-/

namespace Formula

open Number

/-! ## Repeated squaring -/

section Squaring

variable {α : Type} [Number α]

/-- What becomes of `product` times `factor` to the power of a number: an odd number takes one factor
into the product, an even one is halved by squaring the factor, and either multiplication may be
lost. -/
inductive MultipliesUp : α → α → Nat → Option α → Prop
  | done (product factor : α) : MultipliesUp product factor 0 (some product)
  | lostProduct {product factor : α} (n : Nat) (lost : mul? product factor = none) :
      MultipliesUp product factor (2 * n + 1) none
  | multiply {product factor product' : α} {n : Nat} {result : Option α}
      (kept : mul? product factor = some product')
      (rest : MultipliesUp product' factor (2 * n) result) :
      MultipliesUp product factor (2 * n + 1) result
  | lostFactor (product : α) {factor : α} {n : Nat} (pos : 0 < n)
      (lost : mul? factor factor = none) : MultipliesUp product factor (2 * n) none
  | square {product factor factor' : α} {n : Nat} {result : Option α} (pos : 0 < n)
      (kept : mul? factor factor = some factor') (rest : MultipliesUp product factor' n result) :
      MultipliesUp product factor (2 * n) result

theorem multipliesUp_timesPower? (product factor : α) (n : Nat) :
    MultipliesUp product factor n (timesPower? product factor n) := by
  induction n using Nat.strongRecOn generalizing product factor with
  | ind n ih =>
    -- What is left to do once the product has taken in the last bit of the exponent.
    have hrest : ∀ (product : α) (m : Nat), 0 < n → m = n / 2 →
        MultipliesUp product factor (2 * m)
          (if n / 2 = 0 then some product
            else mul? factor factor >>= fun factor' => timesPower? product factor' (n / 2)) := by
      rintro product m hn rfl
      split
      · rename_i hm
        rw [hm]
        exact .done product factor
      · have hm : 0 < n / 2 := by omega
        cases hsquare : mul? factor factor with
        | none => exact .lostFactor product hm hsquare
        | some factor' => exact .square hm hsquare (ih (n / 2) (by omega) product factor')
    rw [timesPower?]
    split
    · rename_i hn
      rw [hn]
      exact .done product factor
    · rename_i hn
      by_cases hodd : n % 2 = 1
      · obtain ⟨m, rfl⟩ : ∃ m, n = 2 * m + 1 := ⟨n / 2, by omega⟩
        rw [if_pos hodd]
        cases hproduct : mul? product factor with
        | none => exact .lostProduct m hproduct
        | some product' => exact .multiply hproduct (hrest product' m (by omega) (by omega))
      · obtain ⟨m, rfl⟩ : ∃ m, n = 2 * m := ⟨n / 2, by omega⟩
        rw [if_neg hodd]
        exact hrest product m (by omega) (by omega)

end Squaring

/-! ## Integers of a fixed width -/

section Bounded

open BoundedInt

variable {w : Width}

theorem one_le_pow_two_mul {f : Int} (hf : f ≠ 0) (n : Nat) : 1 ≤ f ^ (2 * n) :=
  Int.add_one_le_iff.2 ((even_two_mul n).pow_pos hf)

/-- A width that cannot hold a square holds no multiple of a power of it. -/
theorem not_holds_mul_pow_of_square {p f : Int} {n : Nat} (hp : p ≠ 0) (hn : 0 < n)
    (h : ¬ w.Holds (f * f)) : ¬ w.Holds (p * (f * f) ^ n) := by
  intro hpower
  have hnonneg : 0 ≤ f * f := mul_self_nonneg f
  have hlarge : w.bound < f * f := by
    have hbound := w.one_lt_bound
    have hne := w.mul_self_ne_bound f
    unfold Width.Holds at h
    omega
  have hpow : f * f ≤ (f * f) ^ n := by
    have hone : 1 ≤ f * f := by
      have hbound := w.one_lt_bound
      omega
    exact le_self_pow₀ hone hn.ne'
  have habs : (f * f) ^ n ≤ ((p * (f * f) ^ n).natAbs : Int) := by
    rw [Int.natCast_natAbs, abs_mul, abs_of_nonneg (pow_nonneg hnonneg n)]
    exact le_mul_of_one_le_left (pow_nonneg hnonneg n) (Int.one_le_abs hp)
  have hle := hpower.natAbs_le
  omega

/-- Repeated squaring finds the power if the width can hold it, and nothing else. -/
theorem MultipliesUp.eq_ofInt? {p f : BoundedInt w} {n : Nat} {r : Option (BoundedInt w)}
    (h : MultipliesUp p f n r) (hzero : p.val ≠ 0 ∨ f.val = 0) :
    r = ofInt? (p.val * f.val ^ n) := by
  induction h with
  | done p f => rw [pow_zero, mul_one, ofInt?_val]
  | @lostProduct p f n hlost =>
    have hproduct : ¬ w.Holds (p.val * f.val) := ofInt?_eq_none_iff_not_holds.1 hlost
    have hf : f.val ≠ 0 := by
      intro hf
      rw [hf, mul_zero] at hproduct
      exact hproduct Width.holds_zero
    symm
    rw [ofInt?_eq_none_iff_not_holds, pow_succ', ← mul_assoc]
    exact fun hpower => hproduct (hpower.of_mul (one_le_pow_two_mul hf n))
  | @multiply p f p' n r hkept _ ih =>
    have hp' : p'.val = p.val * f.val := ofInt?_eq_some_iff.1 hkept
    rw [ih, hp', pow_succ', mul_assoc]
    rw [hp']
    rcases hzero with hp | hf
    · by_cases hf : f.val = 0
      · exact .inr hf
      · exact .inl (mul_ne_zero hp hf)
    · exact .inr hf
  | @lostFactor p f n hn hlost =>
    have hsquare : ¬ w.Holds (f.val * f.val) := ofInt?_eq_none_iff_not_holds.1 hlost
    have hp : p.val ≠ 0 := by
      rcases hzero with hp | hf
      · exact hp
      · rw [hf, mul_zero] at hsquare
        exact absurd Width.holds_zero hsquare
    symm
    rw [ofInt?_eq_none_iff_not_holds, pow_mul, sq]
    exact not_holds_mul_pow_of_square hp hn hsquare
  | @square p f f' n r _ hkept _ ih =>
    have hf' : f'.val = f.val * f.val := ofInt?_eq_some_iff.1 hkept
    rw [ih, hf', pow_mul, sq]
    rw [hf']
    exact hzero.imp_right fun hf => by rw [hf, mul_zero]

theorem power_eq_integralPower (b e : BoundedInt w) :
    InfixOp.power.apply b e = integralPower b e.val := by
  have hintegral : isIntegral e = true := rfl
  rw [InfixOp.apply, power, if_pos hintegral, toInt64?_eq]

theorem integralPower_of_nonneg (b : BoundedInt w) {n : Int} (hn : 0 ≤ n) :
    integralPower b n = InfixOp.power.checked (ofInt? (b.val ^ n.toNat)) := by
  have hpower :=
    (multipliesUp_timesPower? (Number.one : BoundedInt w) b n.natAbs).eq_ofInt? (.inl one_ne_zero)
  have hone : (Number.one : BoundedInt w).val = 1 := rfl
  have habs : n.natAbs = n.toNat := by omega
  rw [hone, one_mul, habs] at hpower
  have hsign : ¬ n < 0 := by omega
  rw [integralPower, if_neg (fun h => hsign h.1), habs, hpower]
  cases ofInt? (b.val ^ n.toNat) with
  | none => rfl
  | some a => exact if_neg hsign

theorem tdiv_pow_eq_zero {b : Int} {n : Nat} (hn : 0 < n) (hb : 1 < b.natAbs) :
    Int.tdiv 1 (b ^ n) = 0 := by
  have hpow : 1 < (b ^ n).natAbs := by
    rw [Int.natAbs_pow]
    exact Nat.one_lt_pow hn.ne' hb
  rw [← Int.natAbs_eq_zero, Int.natAbs_tdiv]
  exact Nat.div_eq_of_lt hpow

/-- The reciprocal of a power of an integer other than zero, truncated toward zero. -/
theorem exists_reciprocalPower (b : BoundedInt w) {n : Nat} (hn : 0 < n) (hb : b.val ≠ 0) :
    ∃ r, reciprocalPower b n = .ok r ∧ r.val = Int.tdiv 1 (b.val ^ n) := by
  have hzero : ¬ isZero b = true := fun h => hb (isZero_iff.1 h)
  have hinteger : toInt? b = some b.val := rfl
  rw [reciprocalPower, if_neg hzero, hinteger]
  by_cases hone : b.val = 1
  · rw [hone]
    exact ⟨BoundedInt.one, rfl, by rw [one_pow]; rfl⟩
  by_cases hminus : b.val = -1
  · rw [hminus]
    rcases Nat.even_or_odd n with heven | hodd
    · refine ⟨BoundedInt.one, congrArg Except.ok (if_pos (Nat.even_iff.1 heven)), ?_⟩
      rw [heven.neg_one_pow]
      rfl
    · have hmod : ¬ n % 2 = 0 := by
        have := Nat.odd_iff.1 hodd
        omega
      refine ⟨b, congrArg Except.ok (if_neg hmod), ?_⟩
      rw [hodd.neg_one_pow, hminus]
      rfl
  · refine ⟨BoundedInt.zero, ?_, ?_⟩
    · split
      · exact absurd (Option.some.inj ‹_›) hone
      · exact absurd (Option.some.inj ‹_›) hminus
      · rfl
    · have habs : 1 < b.val.natAbs := by omega
      rw [tdiv_pow_eq_zero hn habs]
      rfl

/-- A power of an integer with an exponent from zero on is the exact one, and an overflow only if the
width cannot hold that.  With a negative exponent it is the reciprocal, truncated toward zero, of any
base but zero, and never an overflow. -/
theorem power_eq_exact (b e : BoundedInt w) :
    (0 ≤ e.val →
      (w.Holds (b.val ^ e.val.toNat) →
        ∃ r, InfixOp.power.apply b e = .ok r ∧ r.val = b.val ^ e.val.toNat) ∧
      (¬ w.Holds (b.val ^ e.val.toNat) →
        InfixOp.power.apply b e = .error (.overflow "**"))) ∧
    (e.val < 0 →
      (b.val = 0 → InfixOp.power.apply b e = .error .divisionByZero) ∧
      (b.val ≠ 0 →
        ∃ r, InfixOp.power.apply b e = .ok r ∧ r.val = Int.tdiv 1 (b.val ^ e.val.natAbs))) := by
  rw [power_eq_integralPower]
  refine ⟨fun he => ?_, fun he => ?_⟩
  · rw [integralPower_of_nonneg b he]
    refine ⟨fun hholds => ?_, fun hlost => ?_⟩
    · rw [ofInt?_of_holds hholds]
      exact ⟨_, rfl, rfl⟩
    · rw [ofInt?_eq_none_iff_not_holds.2 hlost]
      rfl
  · rw [integralPower, if_pos ⟨he, rfl⟩]
    refine ⟨fun hb => ?_, fun hb => exists_reciprocalPower b (by omega) hb⟩
    rw [reciprocalPower, if_pos (isZero_iff.2 hb)]

/-- The power of -2 that is the smallest integer of 64 bits, the one of 2 that is its opposite, and
negative exponents down to the smallest. -/
theorem power_eq_exact_at_limits :
    (∃ r : BoundedInt .w64, InfixOp.power.apply ⟨-2, by decide, by decide⟩
        ⟨63, by decide, by decide⟩ = .ok r ∧ r.val = -0x8000000000000000) ∧
    InfixOp.power.apply (⟨2, by decide, by decide⟩ : BoundedInt .w64) ⟨63, by decide, by decide⟩ =
      .error (.overflow "**") ∧
    InfixOp.power.apply (⟨0, by decide, by decide⟩ : BoundedInt .w64)
      ⟨-0x8000000000000000, by decide, by decide⟩ = .error .divisionByZero ∧
    ∃ r : BoundedInt .w64, InfixOp.power.apply ⟨-1, by decide, by decide⟩
      ⟨-0x7fffffffffffffff, by decide, by decide⟩ = .ok r ∧
        r.val = Int.tdiv 1 ((-1) ^ 0x7fffffffffffffff) :=
  ⟨((power_eq_exact _ _).1 (by decide)).1 (by decide),
    ((power_eq_exact _ _).1 (by decide)).2 (by decide),
    ((power_eq_exact _ _).2 (by decide)).1 rfl,
    ((power_eq_exact _ _).2 (by decide)).2 (by decide)⟩

end Bounded

end Formula
