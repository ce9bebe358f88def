import Mathlib.Data.Nat.Factorial.Basic
import Formula.Operator.Apply
import Formula.Proofs.Width

/-!
# Factorials of integers

In every state of the loop the product is the factorial of the counter, and the counter has not
passed the value (`PartialFactorial.Exact`).  So the counter can always be raised as long as it is
below the value, and a product that the width cannot hold divides the factorial, which the width
cannot hold either.  `factorial_eq_exact` puts this together.
-/

namespace Formula

open Number

namespace PartialFactorial

/-- The states that the loop goes through on the way to the factorial of `value`. -/
inductive Reached {α : Type} [Number α] (value : α) : PartialFactorial α → Prop
  | start : Reached value .start
  | more {s s' : PartialFactorial α} (h : Reached value s) (hnext : s.next value = .more s') :
    Reached value s'

section Round

variable {α : Type} [Number α] {value : α} {s : PartialFactorial α}

theorem next_of_less_eq_false (hless : less s.counter value = false) :
    s.next value = .done s.product := by
  rw [next, if_neg (Bool.not_eq_true _ ▸ hless)]

theorem next_of_mul_eq_none {c : α} (hless : less s.counter value = true)
    (hadd : add? s.counter one = some c) (hmul : mul? s.product c = none) :
    s.next value = .overflow := by
  simp only [next, if_pos hless, hadd, hmul]

theorem next_of_mul_eq_some {c p : α} (hless : less s.counter value = true)
    (hadd : add? s.counter one = some c) (hmul : mul? s.product c = some p) :
    s.next value = if isSaturated p then .done p else .more ⟨c, p⟩ := by
  simp only [next, if_pos hless, hadd, hmul]

end Round

section Bounded

open BoundedInt

variable {w : Width} {value : BoundedInt w} {s s' : PartialFactorial (BoundedInt w)}

/-- What every state of the loop satisfies: the product is the factorial of the counter, which runs
from one to the value. -/
structure Exact (value : BoundedInt w) (s : PartialFactorial (BoundedInt w)) : Prop where
  one_le : 1 ≤ s.counter.val
  product_eq : s.product.val = s.counter.val.toNat.factorial
  counter_le : s.counter.val ≤ max 1 value.val

theorem exact_start (value : BoundedInt w) : Exact value .start :=
  ⟨Int.le_refl 1, rfl, Int.le_max_left 1 _⟩

theorem add_one_eq_some {counter : BoundedInt w} (h : counter.val < value.val) :
    ∃ c, add? counter Number.one = some c ∧ c.val = counter.val + 1 := by
  have hholds : w.Holds (counter.val + 1) := by
    have hbelow := counter.neg_bound_le
    have habove := value.lt_bound
    constructor <;> omega
  exact ⟨_, ofInt?_of_holds hholds, rfl⟩

/-- A round below the value multiplies by the next integer. -/
theorem next_of_lt (h : s.counter.val < value.val) :
    ∃ c : BoundedInt w, c.val = s.counter.val + 1 ∧
      s.next value = match BoundedInt.ofInt? (s.product.val * c.val) with
        | none => .overflow
        | some product => .more ⟨c, product⟩ := by
  obtain ⟨c, hadd, hc⟩ := add_one_eq_some h
  refine ⟨c, hc, ?_⟩
  have hmul : mul? s.product c = BoundedInt.ofInt? (s.product.val * c.val) := rfl
  cases hproduct : (BoundedInt.ofInt? (s.product.val * c.val) : Option (BoundedInt w)) with
  | none => exact next_of_mul_eq_none (less_iff.2 h) hadd (hmul.trans hproduct)
  | some product => exact next_of_mul_eq_some (less_iff.2 h) hadd (hmul.trans hproduct)

theorem next_of_not_lt (h : ¬ s.counter.val < value.val) : s.next value = .done s.product :=
  next_of_less_eq_false (Bool.eq_false_iff.2 fun hless => h (less_iff.1 hless))

theorem Exact.factorial_succ (h : Exact value s) :
    s.product.val * (s.counter.val + 1) = ((s.counter.val + 1).toNat.factorial : Int) := by
  have hone := h.one_le
  have hsucc : (s.counter.val + 1).toNat = s.counter.val.toNat + 1 := by omega
  rw [h.product_eq, hsucc, Nat.factorial_succ]
  push_cast
  rw [Int.toNat_of_nonneg (by omega), Int.mul_comm]

theorem Exact.next (h : Exact value s) (hnext : s.next value = .more s') : Exact value s' := by
  by_cases hlt : s.counter.val < value.val
  · obtain ⟨c, hc, heq⟩ := next_of_lt hlt
    have hone := h.one_le
    rw [heq, hc, h.factorial_succ] at hnext
    split at hnext
    · cases hnext
    · rename_i product hproduct
      cases hnext
      refine ⟨?_, ?_, ?_⟩
      · rw [hc]
        omega
      · rw [hc, ofInt?_eq_some_iff.1 hproduct]
      · rw [hc]
        omega
  · rw [next_of_not_lt hlt] at hnext
    cases hnext

theorem exact_of_reached (h : Reached value s) : Exact value s := by
  induction h with
  | start => exact exact_start value
  | more h hnext ih => exact ih.next hnext

/-- A width that holds a factorial holds all smaller ones. -/
theorem holds_factorial_of_le {m n : Nat} (hmn : m ≤ n) (h : w.Holds n.factorial) :
    w.Holds m.factorial := by
  obtain ⟨k, hk⟩ := Nat.factorial_dvd_factorial hmn
  have hpos : k ≠ 0 := by
    rintro rfl
    exact n.factorial_ne_zero (by rw [hk, Nat.mul_zero])
  rw [hk] at h
  push_cast at h
  exact h.of_mul (by omega)

theorem Exact.product_eq_of_not_lt (h : Exact value s) (hvalue : 0 ≤ value.val)
    (hlt : ¬ s.counter.val < value.val) : s.product.val = value.val.toNat.factorial := by
  have hone := h.one_le
  have hle := h.counter_le
  rw [h.product_eq]
  by_cases hzero : value.val = 0
  · -- The factorials of zero and one agree.
    have hcounter : s.counter.val = 1 := by omega
    rw [hcounter, hzero]
    rfl
  · have hcounter : s.counter.val = value.val := by omega
    rw [hcounter]

/-- From every state on, the loop finds the factorial if the width can hold it, and nothing
otherwise. -/
theorem Exact.run_eq {rounds : Nat} (h : Exact value s) (hvalue : 0 ≤ value.val)
    (hrounds : value.val ≤ s.counter.val + rounds) :
    s.run value rounds = BoundedInt.ofInt? (value.val.toNat.factorial : Int) := by
  induction rounds generalizing s with
  | zero =>
    have hlt : ¬ s.counter.val < value.val := by omega
    rw [run, ← h.product_eq_of_not_lt hvalue hlt, ofInt?_val]
  | succ rounds ih =>
    rw [run]
    by_cases hlt : s.counter.val < value.val
    · obtain ⟨c, hc, hnext⟩ := next_of_lt hlt
      rw [hc, h.factorial_succ] at hnext
      cases hproduct : (BoundedInt.ofInt? ((s.counter.val + 1).toNat.factorial : Int) :
          Option (BoundedInt w)) with
      | none =>
        rw [hproduct] at hnext
        rw [hnext]
        have hlost := ofInt?_eq_none_iff_not_holds.1 hproduct
        have hmn : (s.counter.val + 1).toNat ≤ value.val.toNat := by omega
        exact (ofInt?_eq_none_iff_not_holds.2 fun hholds =>
          hlost (holds_factorial_of_le hmn hholds)).symm
      | some product =>
        rw [hproduct] at hnext
        rw [hnext]
        refine ih (h.next hnext) ?_
        rw [hc]
        omega
    · rw [next_of_not_lt hlt, ← h.product_eq_of_not_lt hvalue hlt, ofInt?_val]

end Bounded

end PartialFactorial

section Bounded

open BoundedInt

variable {w : Width}

theorem factorial_of_neg {value : BoundedInt w} (h : value.val < 0) :
    factorial value = .error (.outsideDomain (.factorial (text value))) := by
  rw [factorial, isNegative_iff.2 h]

theorem factorial_eq_of_nonneg {value : BoundedInt w} (h : 0 ≤ value.val)
    {r : Option (BoundedInt w)} (hr : BoundedInt.ofInt? (value.val.toNat.factorial : Int) = r) :
    factorial value = r.elim (.error (.overflow "!")) .ok := by
  have hnegative : isNegative value = false :=
    Bool.eq_false_iff.2 fun hneg => absurd (isNegative_iff.1 hneg) (by omega)
  have hinteger : toInt? value = some value.val := rfl
  have hone : (PartialFactorial.start : PartialFactorial (BoundedInt w)).counter.val = 1 := rfl
  have hrounds : value.val ≤
      (PartialFactorial.start : PartialFactorial (BoundedInt w)).counter.val +
        (value.val.toNat : Int) := by omega
  have hrun := (PartialFactorial.exact_start value).run_eq h hrounds
  simp only [factorial, hnegative, hinteger, hrun, hr]
  cases r with
  | none => rfl
  | some a => rfl

/-- The factorial of a negative integer is outside the domain.  That of any other integer is the
exact one, and an overflow only if the width cannot hold it.  Whatever the value, the product is the
factorial of the counter whenever a round begins, and the width holds the counter that the round
goes on to. -/
theorem factorial_eq_exact (value : BoundedInt w) :
    (value.val < 0 →
      PostfixOp.factorial.apply value = .error (.outsideDomain (.factorial (text value)))) ∧
    (0 ≤ value.val →
      (w.Holds (value.val.toNat.factorial : Int) →
        ∃ r, PostfixOp.factorial.apply value = .ok r ∧ r.val = value.val.toNat.factorial) ∧
      (¬ w.Holds (value.val.toNat.factorial : Int) →
        PostfixOp.factorial.apply value = .error (.overflow "!"))) ∧
    ∀ s, PartialFactorial.Reached value s →
      s.product.val = s.counter.val.toNat.factorial ∧
      (less s.counter value = true →
        ∃ c, add? s.counter Number.one = some c ∧ c.val = s.counter.val + 1) := by
  rw [PostfixOp.apply]
  refine ⟨factorial_of_neg, fun hvalue => ?_, fun s hs => ?_⟩
  · refine ⟨fun hholds => ?_, fun hlost => ?_⟩
    · exact ⟨_, factorial_eq_of_nonneg hvalue (ofInt?_of_holds hholds), rfl⟩
    · exact factorial_eq_of_nonneg hvalue (ofInt?_eq_none_iff_not_holds.2 hlost)
  · exact ⟨(PartialFactorial.exact_of_reached hs).product_eq, fun hless =>
      PartialFactorial.add_one_eq_some (less_iff.1 hless)⟩

/-- The largest factorial that 64 bits hold and the first that 32 bits do not.  On the way to the
factorial of the largest integer, the loop can count on from one. -/
theorem factorial_eq_exact_at_limits :
    PostfixOp.factorial.apply (⟨-1, by decide, by decide⟩ : BoundedInt .w64) =
      .error (.outsideDomain (.factorial "-1")) ∧
    (∃ r : BoundedInt .w64, PostfixOp.factorial.apply ⟨20, by decide, by decide⟩ = .ok r ∧
      r.val = Nat.factorial 20) ∧
    PostfixOp.factorial.apply (⟨13, by decide, by decide⟩ : BoundedInt .w32) =
      .error (.overflow "!") ∧
    ∃ c : BoundedInt .w64, add? (Number.one : BoundedInt .w64) Number.one = some c ∧ c.val = 2 := by
  have hmax := (factorial_eq_exact (⟨0x7fffffffffffffff, by decide, by decide⟩ :
    BoundedInt .w64)).2.2
  obtain ⟨c, hadd, hc⟩ := (hmax _ .start).2 rfl
  refine ⟨(factorial_eq_exact _).1 (by decide), ?_, ?_, c, hadd, hc⟩
  · exact ((factorial_eq_exact _).2.1 (by decide)).1 (by decide)
  · exact ((factorial_eq_exact _).2.1 (by decide)).2 (by decide)

end Bounded

end Formula
