import Formula.Proofs.Factorial.Rounds
import Formula.Proofs.Floating.Integer

/-!
# How long a factorial takes

On integers a product that is lost ends the loop, and on floating-point numbers one that is
infinite, so that the counter never gets far (`Width.lastFactorial`, `Format.lastFactorial`).  On
floating-point numbers the products are rounded, but what is lost on the way does not bring the
first infinite factorial back into the range (`Floating.maximum_le_factorial`).  Counters are exact
up to there, while they would stand still at a larger number (`Floating.add_one_eq_self`).
-/

namespace Formula

open Number PartialFactorial

/-! ## Integers -/

/-- The largest number whose factorial a width holds. -/
def Width.lastFactorial : Width → Nat
  | .w32 => 12
  | .w64 => 20

namespace BoundedInt

variable {w : Width} {value : BoundedInt w} {s : PartialFactorial (BoundedInt w)}

theorem not_holds_factorial (w : Width) : ¬ w.Holds ((w.lastFactorial + 1).factorial : Int) := by
  cases w <;> decide

theorem counter_le_of_reached (hs : Reached value s) : s.counter.val ≤ w.lastFactorial := by
  have hexact := exact_of_reached hs
  by_contra hlt
  have hholds := s.product.holds_val
  rw [hexact.product_eq] at hholds
  exact not_holds_factorial w (holds_factorial_of_le (by omega) hholds)

theorem counts (value : BoundedInt w) : Counts value value.val w.lastFactorial where
  toInt?_value := rfl
  toInt?_one := rfl
  less_iff := by
    rintro a k ⟨⟩
    exact less_iff
  add_one := by
    rintro a k ⟨⟩ - - hlt
    obtain ⟨c, hadd, hc⟩ := add_one_eq_some hlt
    exact ⟨c, hadd, congrArg some hc⟩
  counter_le := by
    rintro s k hs ⟨⟩
    exact counter_le_of_reached hs

theorem exists_course (value : BoundedInt w) :
    ∃ m e, Course value m e ∧ m ≤ w.lastFactorial ∧ factorial value = e.result value ∧
      (e = .refused ∨ e = .overflow ∨ ∃ s, e = .reached s ∧
        (toInt? s.counter = toInt? value ∨ toInt? value = some 0)) := by
  cases hsign : isNegative value with
  | true =>
    obtain ⟨hcourse, hresult⟩ := exists_course_of_refused (.inl hsign)
    exact ⟨0, .refused, hcourse, Nat.zero_le _, hresult, .inl rfl⟩
  | false =>
    have hvalue : 0 ≤ value.val :=
      Int.not_lt.1 fun hlt => Bool.eq_false_iff.1 hsign (isNegative_iff.2 hlt)
    obtain ⟨m, e, hcourse, hm, hresult, hfinishes⟩ := (counts value).exists_course hvalue hsign
    refine ⟨m, e, hcourse, hm, hresult, .inr ?_⟩
    rcases hfinishes.ending_cases .start with ⟨s, hs, hless, rfl⟩ | ⟨_, _, -, -, -, -, rfl⟩ |
      ⟨_, _, _, -, -, -, -, hsaturated, -⟩
    · exact .inr ⟨s, rfl, (counts value).reaches_value hvalue hs hless⟩
    · exact .inl rfl
    · -- No integer is saturated.
      cases hsaturated

end BoundedInt

/-! ## Floating-point numbers -/

/-- The largest number whose factorial is finite. -/
def Format.lastFactorial : Format → Nat
  | .binary32 => 34
  | .binary64 => 170

theorem Format.lastFactorial_add_one_lt (F : Format) : F.lastFactorial + 1 < 2 ^ F.precision := by
  cases F <;> decide

namespace Floating

variable {F : Format}

/-- The factorial behind the last finite one is out of range, even if each product on the way to it
loses one part in the power of two that the precision sets. -/
theorem maximum_le_factorial (F : Format) :
    2 ^ (F.precision + F.maxShift) * (2 ^ F.precision) ^ F.lastFactorial ≤
      (F.lastFactorial + 1).factorial * (2 ^ F.precision - 1) ^ F.lastFactorial *
        F.unitsPerOne := by
  cases F <;> decide +kernel

theorem toInt?_counter {i : Nat} (hi : i ≤ F.lastFactorial) :
    (ofInt (i + 1 : Nat) : Floating F).toInt? = some ((i + 1 : Nat) : Int) := by
  have hlast := F.lastFactorial_add_one_lt
  exact toInt?_ofInt (by omega)

theorem toInt?_one : (one : Floating F).toInt? = some 1 :=
  toInt?_counter (Nat.zero_le _)

theorem add_one_counter {i : Nat} (hi : i ≤ F.lastFactorial) :
    (ofInt (i + 1 : Nat) : Floating F).add one = ofInt (i + 2 : Nat) := by
  rw [add_eq_ofInt (toInt?_counter hi) toInt?_one (by omega)]
  rfl

/-- What a state of the loop satisfies by the number of rounds before it.  The product is finite and
at least the factorial of the counter, less what was lost by rounding. -/
structure IsAfter (i : Nat) (s : PartialFactorial (Floating F)) : Prop where
  lt_lastFactorial : i < F.lastFactorial
  counter_eq : s.counter = ofInt (i + 1 : Nat)
  isFinite_product : s.product.isFinite = true
  isNegative_product : s.product.isNegative = false
  one_le_product : F.unitsPerOne ≤ s.product.magnitude
  factorial_le : (i + 1).factorial * (2 ^ F.precision - 1) ^ i * F.unitsPerOne ≤
    s.product.magnitude * (2 ^ F.precision) ^ i

variable {value : Floating F} {s s' : PartialFactorial (Floating F)} {i : Nat}

theorem isAfter_start : IsAfter 0 (.start : PartialFactorial (Floating F)) where
  lt_lastFactorial := by cases F <;> decide
  counter_eq := rfl
  isFinite_product := magnitude_one.1
  isNegative_product := isNegative_ofInt_natCast 1
  one_le_product := magnitude_one.2.ge
  factorial_le := by
    rw [Nat.pow_zero, Nat.pow_zero, Nat.factorial_one, Nat.mul_one, Nat.mul_one, Nat.one_mul]
    exact magnitude_one.2.ge

theorem IsAfter.counter_eq_of_add (h : IsAfter i s) {c : Floating F}
    (hadd : add? s.counter one = some c) : c = ofInt (i + 2 : Nat) := by
  rw [← add_one_counter h.lt_lastFactorial.le, ← h.counter_eq]
  exact (Option.some.inj hadd).symm

theorem IsAfter.next (h : IsAfter i s) (hnext : s.next value = .more s') : IsAfter (i + 1) s' := by
  obtain ⟨-, hadd, hmul, hsaturated⟩ := of_next_eq_more hnext
  have hcounter := h.counter_eq_of_add hadd
  have hproduct : s'.product = s.product.mul (ofInt (i + 2 : Nat)) := by
    rw [← hcounter]
    exact (Option.some.inj hmul).symm
  have hfinite : s'.product.isFinite = true := (Bool.not_eq_false' _).mp hsaturated
  have hlast := F.lastFactorial_add_one_lt
  have hlt := h.lt_lastFactorial
  rw [hproduct] at hfinite
  obtain ⟨hone, hle⟩ := le_magnitude_mul_ofInt (by omega) (by omega) h.one_le_product hfinite
  rw [← hproduct] at hfinite hone hle
  have hfactorial : (i + 1 + 1).factorial * (2 ^ F.precision - 1) ^ (i + 1) * F.unitsPerOne ≤
      s'.product.magnitude * (2 ^ F.precision) ^ (i + 1) := by
    calc (i + 1 + 1).factorial * (2 ^ F.precision - 1) ^ (i + 1) * F.unitsPerOne
        = (i + 1).factorial * (2 ^ F.precision - 1) ^ i * F.unitsPerOne *
            ((i + 2) * (2 ^ F.precision - 1)) := by
          rw [Nat.factorial_succ, Nat.pow_succ]; ring
      _ ≤ s.product.magnitude * (2 ^ F.precision) ^ i * ((i + 2) * (2 ^ F.precision - 1)) :=
          Nat.mul_le_mul_right _ h.factorial_le
      _ = s.product.magnitude * (i + 2) * (2 ^ F.precision - 1) * (2 ^ F.precision) ^ i := by ring
      _ ≤ s'.product.magnitude * 2 ^ F.precision * (2 ^ F.precision) ^ i :=
          Nat.mul_le_mul_right _ hle
      _ = s'.product.magnitude * (2 ^ F.precision) ^ (i + 1) := by rw [Nat.pow_succ]; ring
  refine ⟨?_, hcounter, hfinite, ?_, hone, hfactorial⟩
  · -- Behind the last factorial the product would be out of range.
    have hnot : i + 1 ≠ F.lastFactorial := by
      intro heq
      rw [heq] at hfactorial
      have hmaximum := (maximum_le_factorial F).trans hfactorial
      have hrange := Nat.le_of_mul_le_mul_right hmaximum (Nat.pow_pos (Nat.two_pow_pos _))
      exact absurd s'.product.magnitude_lt (Nat.not_lt.2 hrange)
    omega
  · rw [hproduct] at hfinite ⊢
    obtain ⟨hfirst, hsecond⟩ := isFinite_of_mul hfinite
    rw [isNegative_mul hfirst hsecond, h.isNegative_product, isNegative_ofInt_natCast]
    rfl

/-- The states of the loop do not depend on the value. -/
theorem exists_isAfter_of_reached (hs : Reached value s) : ∃ i, IsAfter i s := by
  induction hs with
  | start => exact ⟨0, isAfter_start⟩
  | more _ hnext ih =>
    obtain ⟨i, hi⟩ := ih
    exact ⟨i + 1, hi.next hnext⟩

theorem counts {n : Int} (hvalue : value.toInt? = some n) : Counts value n F.lastFactorial where
  toInt?_value := hvalue
  toInt?_one := toInt?_one
  less_iff ha := less_iff_of_toInt? ha hvalue
  add_one := by
    intro a k ha hone hlimit _
    have hlast := F.lastFactorial_add_one_lt
    obtain ⟨i, rfl⟩ := Int.eq_ofNat_of_zero_le (by omega : 0 ≤ k)
    have hsum := add_eq_ofInt ha toInt?_one (by omega)
    rw [← Int.natCast_succ] at hsum ⊢
    exact ⟨_, congrArg some hsum, toInt?_ofInt (by omega)⟩
  counter_le := by
    intro s k hs hk
    obtain ⟨i, hi⟩ := exists_isAfter_of_reached hs
    have hlt := hi.lt_lastFactorial
    have hcounter := toInt?_counter (F := F) hlt.le
    rw [← hi.counter_eq] at hcounter
    cases hcounter.symm.trans hk
    omega

/-- The first product that is not finite is infinite. -/
theorem eq_infinite_of_reached {c p : Floating F} (hs : Reached value s)
    (hadd : add? s.counter one = some c) (hmul : mul? s.product c = some p)
    (hsaturated : Number.isSaturated p = true) : p = infinite false := by
  obtain ⟨i, hi⟩ := exists_isAfter_of_reached hs
  have hcounter := hi.counter_eq_of_add hadd
  have hproduct : s.product.mul c = p := Option.some.inj hmul
  have hlast := F.lastFactorial_add_one_lt
  have hlt := hi.lt_lastFactorial
  have hfinite : c.isFinite = true := by
    rw [hcounter]
    exact (magnitude_ofInt_natCast (by omega)).1
  have hinfinite : (s.product.mul c).isFinite = false := by
    rw [hproduct]
    exact (Bool.not_eq_true' _).mp hsaturated
  rw [← hproduct, mul_eq_infinite hi.isFinite_product hfinite hinfinite, hi.isNegative_product,
    hcounter, isNegative_ofInt_natCast]
  rfl

theorem exists_course (value : Floating F) :
    ∃ m e, Course value m e ∧ m ≤ F.lastFactorial ∧ factorial value = e.result value ∧
      (e = .refused ∨ e = .saturated (.infinite false) ∨ ∃ s, e = .reached s ∧
        (toInt? s.counter = toInt? value ∨ toInt? value = some 0)) := by
  by_cases hrefused : Number.isNegative value = true ∨ isIntegral value = false
  · obtain ⟨hcourse, hresult⟩ := exists_course_of_refused hrefused
    exact ⟨0, .refused, hcourse, Nat.zero_le _, hresult, .inl rfl⟩
  · obtain ⟨hsign, hwhole⟩ := not_or.1 hrefused
    obtain ⟨n, hn⟩ := Option.isSome_iff_exists.1 (Bool.not_eq_false _ ▸ hwhole)
    have hnonneg : 0 ≤ n := Int.not_lt.1 fun hlt => hsign ((isNegative_iff_of_toInt? hn).2 hlt)
    obtain ⟨m, e, hcourse, hm, hresult, hfinishes⟩ :=
      (counts hn).exists_course hnonneg (Bool.eq_false_iff.2 hsign)
    refine ⟨m, e, hcourse, hm, hresult, .inr ?_⟩
    rcases hfinishes.ending_cases .start with ⟨s, hs, hless, rfl⟩ | ⟨_, _, -, -, -, hmul, -⟩ |
      ⟨s, c, p, hs, -, hadd, hmul, hsaturated, rfl⟩
    · exact .inr ⟨s, rfl, (counts hn).reaches_value hnonneg hs hless⟩
    · -- No product of floating-point numbers is lost.
      cases hmul
    · exact .inl (congrArg _ (eq_infinite_of_reached hs hadd hmul hsaturated))

end Floating

/-! ## All number types -/

/-- Whatever the value, its factorial takes at most 170 multiplications.  If the value is not
refused, the loop ends on integers when the counter reaches the value or the product is lost, on
floating-point numbers when the counter reaches the value or the product is infinite; the counter
begins at one, so that it has nothing to reach for zero.  This holds also for values at which a
counter would stand still. -/
theorem factorial_takes_few_multiplications :
    (∀ (w : Width) (value : BoundedInt w), ∃ m e, Course value m e ∧
      (∀ m' e', Course value m' e' → m' = m ∧ e' = e) ∧ m ≤ 170 ∧
      PostfixOp.factorial.apply value = e.result value ∧
      (e = .refused ∨ e = .overflow ∨ ∃ s, e = .reached s ∧
        (toInt? s.counter = toInt? value ∨ toInt? value = some 0))) ∧
    (∀ (F : Format) (value : Floating F), ∃ m e, Course value m e ∧
      (∀ m' e', Course value m' e' → m' = m ∧ e' = e) ∧ m ≤ 170 ∧
      PostfixOp.factorial.apply value = e.result value ∧
      (e = .refused ∨ e = .saturated (.infinite false) ∨ ∃ s, e = .reached s ∧
        (toInt? s.counter = toInt? value ∨ toInt? value = some 0))) ∧
    ∀ F : Format, add? (.ofInt (2 ^ F.precision) : Floating F) one =
      some (.ofInt (2 ^ F.precision)) := by
  refine ⟨fun w value => ?_, fun F value => ?_, fun F => ?_⟩
  · obtain ⟨m, e, hcourse, hm, hresult, hending⟩ := BoundedInt.exists_course value
    have hlast : w.lastFactorial ≤ 170 := by cases w <;> decide
    exact ⟨m, e, hcourse, fun _ _ => hcourse.unique, hm.trans hlast, hresult, hending⟩
  · obtain ⟨m, e, hcourse, hm, hresult, hending⟩ := Floating.exists_course value
    have hlast : F.lastFactorial ≤ 170 := by cases F <;> decide
    exact ⟨m, e, hcourse, fun _ _ => hcourse.unique, hm.trans hlast, hresult, hending⟩
  · exact congrArg some (Floating.add_one_eq_self F)

/-- The factorial of the largest single precision number. -/
example : PostfixOp.factorial.apply
    (.finite false (Nat.pow 2 24 - 1) 253 (by decide) : Floating .binary32) =
      .ok (.infinite false) := by
  decide +kernel

end Formula
