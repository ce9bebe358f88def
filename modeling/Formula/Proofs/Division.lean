import Formula.Operator.Apply
import Formula.Proofs.Width

/-!
# Quotients and remainders

A quotient of two integers of one width, truncated toward zero, is one of this width again unless it
is the opposite of the smallest (`Width.holds_tdiv_iff`).  The remainder is smaller than the divisor
and so always one, but it is given only with the quotient.  The product of quotient and divisor lies
between zero and the dividend, so that a division can be undone within the width
(`quotient_and_remainder_fit`).
-/

namespace Formula

variable {w : Width}

/-! ## Ranges -/

namespace Width

variable {n k : Int}

theorem holds_tdiv_iff (hn : w.Holds n) (hk : k ≠ 0) :
    w.Holds (n.tdiv k) ↔ ¬ (n = -w.bound ∧ k = -1) := by
  have hbound := w.one_lt_bound
  constructor
  · rintro ⟨-, habove⟩ ⟨rfl, rfl⟩
    rw [Int.tdiv_neg, Int.tdiv_one] at habove
    omega
  · intro hne
    obtain ⟨hbelow, habove⟩ := hn
    by_cases hone : k.natAbs = 1
    · obtain rfl | rfl : k = 1 ∨ k = -1 := by omega
      · rw [Int.tdiv_one]
        exact ⟨hbelow, habove⟩
      · rw [Int.tdiv_neg, Int.tdiv_one]
        constructor <;> omega
    · -- A larger divisor at least halves the dividend.
      have hhalf : (n.tdiv k).natAbs ≤ n.natAbs / 2 := by
        rw [Int.natAbs_tdiv]
        exact Nat.div_le_div_left (by omega) (by decide)
      constructor <;> omega

theorem natAbs_tmod_lt (n : Int) (hk : k ≠ 0) : (n.tmod k).natAbs < k.natAbs := by
  rw [Int.natAbs_tmod]
  exact Nat.mod_lt _ (Int.natAbs_pos.2 hk)

theorem Holds.tmod (hk : w.Holds k) (n : Int) (hne : k ≠ 0) : w.Holds (n.tmod k) := by
  have hlt := natAbs_tmod_lt n hne
  obtain ⟨hbelow, habove⟩ := hk
  constructor <;> omega

theorem tmod_eq_zero_or_sign_eq (n k : Int) : n.tmod k = 0 ∨ (n.tmod k).sign = n.sign := by
  rw [Int.sign_tmod]
  split
  · exact .inl (Int.tmod_eq_zero_of_dvd ‹_›)
  · exact .inr rfl

/-- The product of quotient and divisor lies between zero and the dividend. -/
theorem Holds.tdiv_mul (hn : w.Holds n) (k : Int) : w.Holds (n.tdiv k * k) := by
  have hsum := Int.tdiv_mul_add_tmod n k
  have hle : (n.tmod k).natAbs ≤ n.natAbs := by
    rw [Int.natAbs_tmod]
    exact Nat.mod_le _ _
  have hbound := w.one_lt_bound
  obtain ⟨hbelow, habove⟩ := hn
  rcases tmod_eq_zero_or_sign_eq n k with hzero | hsign
  · constructor <;> omega
  · rcases Int.lt_trichotomy n 0 with hneg | rfl | hpos
    · have := Int.sign_eq_neg_one_iff_neg.1 (hsign.trans (Int.sign_eq_neg_one_of_neg hneg))
      constructor <;> omega
    · constructor <;> omega
    · have := Int.sign_eq_one_iff_pos.1 (hsign.trans (Int.sign_eq_one_of_pos hpos))
      constructor <;> omega

end Width

/-! ## Checked divisions -/

namespace BoundedInt

variable {a b : BoundedInt w}

theorem quotient?_eq_ofInt? (hb : b.val ≠ 0) :
    Number.quotient? a b = ofInt? (a.val.tdiv b.val) :=
  if_neg hb

theorem quotient?_eq_none_iff (hb : b.val ≠ 0) :
    Number.quotient? a b = none ↔ a.val = -w.bound ∧ b.val = -1 := by
  rw [quotient?_eq_ofInt? hb, ofInt?_eq_none_iff_not_holds, Width.holds_tdiv_iff a.holds_val hb,
    Classical.not_not]

theorem exists_quotient? (hb : b.val ≠ 0) (h : ¬ (a.val = -w.bound ∧ b.val = -1)) :
    ∃ q : BoundedInt w, Number.quotient? a b = some q ∧ q.val = a.val.tdiv b.val := by
  obtain ⟨q, hq⟩ := Option.ne_none_iff_exists'.1 (mt (quotient?_eq_none_iff hb).1 h)
  refine ⟨q, hq, ofInt?_eq_some_iff.1 ?_⟩
  rw [← quotient?_eq_ofInt? hb, hq]

/-- A remainder is given wherever the quotient is. -/
theorem exists_remainder?_eq_map (hb : b.val ≠ 0) :
    ∃ r : BoundedInt w, Number.remainder? a b = (Number.quotient? a b).map (fun _ => r) ∧
      r.val = a.val.tmod b.val := by
  have hholds := b.holds_val.tmod a.val hb
  refine ⟨⟨a.val.tmod b.val, hholds.1, hholds.2⟩, ?_, rfl⟩
  show (Number.quotient? a b).bind (fun _ => ofInt? (a.val.tmod b.val)) = _
  rw [ofInt?_of_holds hholds, Option.map_eq_bind]
  rfl

theorem remainder?_eq_none_iff (hb : b.val ≠ 0) :
    Number.remainder? a b = none ↔ a.val = -w.bound ∧ b.val = -1 := by
  obtain ⟨r, hr, -⟩ := exists_remainder?_eq_map (a := a) hb
  rw [hr, Option.map_eq_none_iff, quotient?_eq_none_iff hb]

theorem exists_remainder? (hb : b.val ≠ 0) (h : ¬ (a.val = -w.bound ∧ b.val = -1)) :
    ∃ r : BoundedInt w, Number.remainder? a b = some r ∧ r.val = a.val.tmod b.val := by
  obtain ⟨q, hq, -⟩ := exists_quotient? hb h
  obtain ⟨r, hr, hval⟩ := exists_remainder?_eq_map (a := a) hb
  exact ⟨r, by rw [hr, hq, Option.map_some], hval⟩

end BoundedInt

/-! ## The operators -/

namespace InfixOp

open BoundedInt

variable {a b : BoundedInt w}

theorem checked_eq_overflow_iff {op : InfixOp} {x : Option (BoundedInt w)} :
    op.checked x = .error (.overflow op.spelling) ↔ x = none := by
  cases x with
  | none => exact iff_of_true rfl rfl
  | some a => exact iff_of_false nofun nofun

section Divided

variable (op : InfixOp) (f : BoundedInt w → BoundedInt w → Option (BoundedInt w))

theorem divided_of_eq_zero (hb : b.val = 0) : op.divided f a b = .error .divisionByZero := by
  rw [divided, if_pos (isZero_iff.2 hb)]

theorem divided_of_ne_zero (hb : b.val ≠ 0) : op.divided f a b = op.checked (f a b) := by
  rw [divided, if_neg (fun h => hb (isZero_iff.1 h))]

theorem divided_eq_overflow_iff
    (hf : b.val ≠ 0 → (f a b = none ↔ a.val = -w.bound ∧ b.val = -1)) :
    op.divided f a b = .error (.overflow op.spelling) ↔ a.val = -w.bound ∧ b.val = -1 := by
  by_cases hb : b.val = 0
  · rw [divided_of_eq_zero op f hb]
    exact iff_of_false nofun (by omega)
  · rw [divided_of_ne_zero op f hb, checked_eq_overflow_iff, hf hb]

end Divided

/-- The operators that divide. -/
def divisions : List InfixOp :=
  [divide, truncatedDivide, remainder]

theorem eq_of_mem_divisions {op : InfixOp} (hop : op ∈ divisions) :
    op = divide ∨ op = truncatedDivide ∨ op = remainder := by
  simpa [divisions] using hop

theorem apply_eq_divisionByZero {op : InfixOp} (hop : op ∈ divisions) (hb : b.val = 0) :
    op.apply a b = .error .divisionByZero := by
  obtain rfl | rfl | rfl := eq_of_mem_divisions hop
  · exact divided_of_eq_zero _ _ hb
  · exact divided_of_eq_zero _ _ hb
  · exact divided_of_eq_zero _ _ hb

theorem apply_eq_overflow_iff {op : InfixOp} (hop : op ∈ divisions) :
    op.apply a b = .error (.overflow op.spelling) ↔ a.val = -w.bound ∧ b.val = -1 := by
  obtain rfl | rfl | rfl := eq_of_mem_divisions hop
  · exact divided_eq_overflow_iff _ _ quotient?_eq_none_iff
  · exact divided_eq_overflow_iff _ _ quotient?_eq_none_iff
  · exact divided_eq_overflow_iff _ _ remainder?_eq_none_iff

theorem exists_apply_eq_ok (hb : b.val ≠ 0) (h : ¬ (a.val = -w.bound ∧ b.val = -1)) :
    ∃ q r : BoundedInt w, divide.apply a b = .ok q ∧ truncatedDivide.apply a b = .ok q ∧
      remainder.apply a b = .ok r ∧ q.val = a.val.tdiv b.val ∧ r.val = a.val.tmod b.val := by
  obtain ⟨q, hq, hqval⟩ := exists_quotient? hb h
  obtain ⟨r, hr, hrval⟩ := exists_remainder? hb h
  have hdivided : ∀ (op : InfixOp) {f : BoundedInt w → BoundedInt w → Option (BoundedInt w)}
      {c : BoundedInt w}, f a b = some c → op.divided f a b = .ok c := by
    intro op f c hc
    rw [divided_of_ne_zero op f hb, hc]
    rfl
  exact ⟨q, r, hdivided divide hq, hdivided truncatedDivide hq, hdivided remainder hr, hqval, hrval⟩

/-- Neither the product nor the sum that undo a division leave the width. -/
theorem exists_multiply_add {q r : BoundedInt w} (hq : q.val = a.val.tdiv b.val)
    (hr : r.val = a.val.tmod b.val) :
    ∃ p, multiply.apply q b = .ok p ∧ add.apply p r = .ok a := by
  have hholds := a.holds_val.tdiv_mul b.val
  refine ⟨⟨a.val.tdiv b.val * b.val, hholds.1, hholds.2⟩, ?_, ?_⟩
  · show multiply.checked (ofInt? (q.val * b.val)) = _
    rw [hq, ofInt?_of_holds hholds]
    rfl
  · show add.checked (ofInt? (a.val.tdiv b.val * b.val + r.val)) = _
    rw [hr, Int.tdiv_mul_add_tmod, ofInt?_val]
    rfl

/-- Both quotients and the remainder of two integers are refused for a divisor of zero, and overflow
exactly where the smallest integer is divided by -1.  All others exist: the quotients are the exact
one, truncated toward zero, the remainder is smaller than the divisor and has the sign of the
dividend, and multiplying and adding up in the same width gives the dividend again. -/
theorem quotient_and_remainder_fit (a b : BoundedInt w) :
    (∀ op ∈ divisions,
      (b.val = 0 → op.apply a b = .error .divisionByZero) ∧
      (op.apply a b = .error (.overflow op.spelling) ↔ a.val = -w.bound ∧ b.val = -1)) ∧
    (b.val ≠ 0 → ¬ (a.val = -w.bound ∧ b.val = -1) →
      ∃ q r : BoundedInt w, divide.apply a b = .ok q ∧ truncatedDivide.apply a b = .ok q ∧
        remainder.apply a b = .ok r ∧ q.val = a.val.tdiv b.val ∧
        r.val.natAbs < b.val.natAbs ∧ (r.val = 0 ∨ r.val.sign = a.val.sign) ∧
        ∃ p, multiply.apply q b = .ok p ∧ add.apply p r = .ok a) := by
  refine ⟨fun op hop => ⟨apply_eq_divisionByZero hop, apply_eq_overflow_iff hop⟩, fun hb h => ?_⟩
  obtain ⟨q, r, hdivide, htruncated, hremainder, hq, hr⟩ := exists_apply_eq_ok hb h
  refine ⟨q, r, hdivide, htruncated, hremainder, hq, ?_, ?_, exists_multiply_add hq hr⟩
  · rw [hr]
    exact Width.natAbs_tmod_lt a.val hb
  · rw [hr]
    exact Width.tmod_eq_zero_or_sign_eq a.val b.val

/-- The smallest 32-bit integer divided by 3, by -1 and by 0. -/
theorem quotient_and_remainder_fit_of_smallest :
    (∃ q r : BoundedInt .w32,
      divide.apply ⟨-0x80000000, by decide, by decide⟩ ⟨3, by decide, by decide⟩ = .ok q ∧
      remainder.apply ⟨-0x80000000, by decide, by decide⟩ ⟨3, by decide, by decide⟩ = .ok r ∧
      q.val = -715827882 ∧ r.val.natAbs < 3 ∧ (r.val = 0 ∨ r.val.sign = -1) ∧
      ∃ p, multiply.apply q ⟨3, by decide, by decide⟩ = .ok p ∧
        add.apply p r = .ok ⟨-0x80000000, by decide, by decide⟩) ∧
    remainder.apply (⟨-0x80000000, by decide, by decide⟩ : BoundedInt .w32)
      ⟨-1, by decide, by decide⟩ = .error (.overflow "%") ∧
    truncatedDivide.apply (⟨-0x80000000, by decide, by decide⟩ : BoundedInt .w32)
      ⟨0, by decide, by decide⟩ = .error .divisionByZero := by
  refine ⟨?_, ?_, ?_⟩
  · obtain ⟨q, r, hdivide, -, hremainder, hq, hlt, hsign, hundone⟩ :=
      (quotient_and_remainder_fit (⟨-0x80000000, by decide, by decide⟩ : BoundedInt .w32)
        ⟨3, by decide, by decide⟩).2 (by decide) (by decide)
    exact ⟨q, r, hdivide, hremainder, hq, hlt, hsign, hundone⟩
  · exact ((quotient_and_remainder_fit (⟨-0x80000000, by decide, by decide⟩ : BoundedInt .w32)
      ⟨-1, by decide, by decide⟩).1 remainder (by decide)).2.2 (by decide)
  · exact ((quotient_and_remainder_fit (⟨-0x80000000, by decide, by decide⟩ : BoundedInt .w32)
      ⟨0, by decide, by decide⟩).1 truncatedDivide (by decide)).1 rfl

end InfixOp

end Formula
