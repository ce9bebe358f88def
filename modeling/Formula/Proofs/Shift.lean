import Mathlib.Algebra.Order.Ring.Abs
import Mathlib.Tactic.Linarith
import Mathlib.Tactic.Positivity
import Formula.Proofs.Word

/-!
# Shifts to the left

A shift to the left multiplies by a power of two, in words of 64 bits.  What does not fit into a word
is cut off there without a failure, and only the rest is checked against the width of the operands
(`shiftLeft_eq_checked`).  `ShiftsExactly` is the law that nothing is cut off silently.
`shiftsExactly_iff` says where it holds: 64-bit operands obey it only where no bit is lost at all, and
32-bit operands unless so many bits are lost that none is left.
-/

namespace Formula

open BoundedInt

variable {w : Width}

/-! ## Words -/

theorem Width.holds_w64_bmod (n : Int) : Width.w64.Holds (n.bmod (2 ^ 64)) := by
  simp only [Width.Holds, Width.bound, Int.bmod]
  split <;> omega

theorem ofWord_eq_checked (op : InfixOp) (word : BitVec 64) :
    (ofWord op.spelling word : Except Failure (BoundedInt w)) = op.checked (ofInt? word.toInt) := by
  have hinteger : (Number.ofInt? word.toInt : Option (BoundedInt w)) = ofInt? word.toInt := rfl
  rw [ofWord, hinteger]
  cases (ofInt? word.toInt : Option (BoundedInt w)) <;> rfl

/-! ## One shift -/

/-- A word shifted to the left is its product with a power of two, less a multiple of the number of
all words. -/
theorem toInt_shiftLeft_ofInt (n : Int) (k : Nat) :
    (BitVec.ofInt 64 n <<< k).toInt = (n * 2 ^ k).bmod (2 ^ 64) := by
  have hpower : BitVec.twoPow 64 k = BitVec.ofInt 64 (2 ^ k) := by
    apply BitVec.eq_of_toNat_eq
    rw [BitVec.toNat_twoPow, BitVec.toNat_ofInt]
    norm_cast
  rw [BitVec.shiftLeft_eq_mul_twoPow, hpower, ← BitVec.ofInt_mul, BitVec.toInt_ofInt]

theorem shiftLeft_eq_checked (a s : BoundedInt w) :
    InfixOp.shiftLeft.apply a s =
      if 0 ≤ s.val ∧ s.val < 64 then
        InfixOp.shiftLeft.checked (ofInt? ((a.val * 2 ^ s.val.toNat).bmod (2 ^ 64)))
      else .error (.outsideDomain (.shiftAmount s.val)) := by
  rw [InfixOp.apply, onWords_eq, shiftLeftWord, shiftAmount, toInt_ofInt_val]
  split
  · rw [← toInt_shiftLeft_ofInt, ← ofWord_eq_checked]
    rfl
  · rfl

/-! ## The law -/

/-- The law that a shift to the left loses no bits silently: by 0 to 63 bits it gives the exact
product, or an overflow if the width cannot hold that; any other amount is outside its domain. -/
structure ShiftsExactly (a s : BoundedInt w) : Prop where
  outside : ¬ (0 ≤ s.val ∧ s.val ≤ 63) →
    InfixOp.shiftLeft.apply a s = .error (.outsideDomain (.shiftAmount s.val))
  exact : 0 ≤ s.val ∧ s.val ≤ 63 → w.Holds (a.val * 2 ^ s.val.toNat) →
    ∃ r, InfixOp.shiftLeft.apply a s = .ok r ∧ r.val = a.val * 2 ^ s.val.toNat
  overflow : 0 ≤ s.val ∧ s.val ≤ 63 → ¬ w.Holds (a.val * 2 ^ s.val.toNat) →
    InfixOp.shiftLeft.apply a s = .error (.overflow "<<")

/-- The law holds unless the width cannot hold the product but can hold what a word keeps of it. -/
theorem shiftsExactly_iff_of_lost (a s : BoundedInt w) :
    ShiftsExactly a s ↔
      (0 ≤ s.val ∧ s.val ≤ 63 → ¬ w.Holds (a.val * 2 ^ s.val.toNat) →
        ¬ w.Holds ((a.val * 2 ^ s.val.toNat).bmod (2 ^ 64))) := by
  constructor
  · intro h hs hlost hkept
    have heq := h.overflow hs hlost
    rw [shiftLeft_eq_checked, if_pos ⟨hs.1, by omega⟩, ofInt?_of_holds hkept] at heq
    cases heq
  · intro h
    refine ⟨fun hs => ?_, fun hs hholds => ?_, fun hs hlost => ?_⟩
    · rw [shiftLeft_eq_checked, if_neg (by omega)]
    · rw [shiftLeft_eq_checked, if_pos ⟨hs.1, by omega⟩, hholds.bmod_eq, ofInt?_of_holds hholds]
      exact ⟨_, rfl, rfl⟩
    · rw [shiftLeft_eq_checked, if_pos ⟨hs.1, by omega⟩,
        ofInt?_eq_none_iff_not_holds.2 (h hs hlost)]
      rfl

/-! ## Bits that are lost -/

theorem bmod_eq_zero_iff {n : Int} : n.bmod (2 ^ 64) = 0 ↔ (2 ^ 64 : Int) ∣ n := by
  simp only [Int.bmod]
  split <;> omega

/-- A product with a power of two above the range of 32 bits keeps nothing that 32 bits can hold but
zero. -/
theorem bmod_eq_zero_of_holds_w32 {n : Int} {k : Nat} (hk : 32 < k) (hk' : k ≤ 64)
    (h : Width.w32.Holds ((n * 2 ^ k).bmod (2 ^ 64))) : (n * 2 ^ k).bmod (2 ^ 64) = 0 := by
  have hdvd : (2 ^ k : Int) ∣ (n * 2 ^ k).bmod (2 ^ 64) := by
    have hword : ((2 ^ 64 : Nat) : Int) ∣ n * 2 ^ k - (n * 2 ^ k).bmod (2 ^ 64) :=
      Int.dvd_self_sub_bmod
    have hpower : (2 ^ k : Int) ∣ ((2 ^ 64 : Nat) : Int) := by
      exact_mod_cast Nat.pow_dvd_pow 2 hk'
    exact (Int.dvd_iff_dvd_of_dvd_sub (hpower.trans hword)).1 (Int.dvd_mul_left _ _)
  have hlarge : (2 ^ 33 : Int) ≤ 2 ^ k := pow_le_pow_right₀ (by decide) hk
  apply Int.eq_zero_of_abs_lt_dvd hdvd
  have hbelow := h.1
  have habove := h.2
  simp only [Width.bound] at hbelow habove
  rw [abs_lt]
  omega

/-- Where a 32-bit integer, shifted in a word, comes back as another one: it is shifted far, and all
its bits are lost. -/
theorem lost_silently_iff {a : Int} (ha : Width.w32.Holds a) {k : Nat} (hk : k ≤ 63) :
    (¬ Width.w32.Holds (a * 2 ^ k) ∧ Width.w32.Holds ((a * 2 ^ k).bmod (2 ^ 64))) ↔
      32 < k ∧ a ≠ 0 ∧ (2 ^ (64 - k) : Int) ∣ a := by
  have hdvd : (2 ^ 64 : Int) ∣ a * 2 ^ k ↔ (2 ^ (64 - k) : Int) ∣ a := by
    have hsplit : (2 ^ 64 : Int) = 2 ^ (64 - k) * 2 ^ k := by
      rw [← pow_add]
      congr 1
      omega
    rw [hsplit]
    exact mul_dvd_mul_iff_right (by positivity)
  constructor
  · rintro ⟨hlost, hkept⟩
    have hfar : 32 < k := by
      by_contra hnear
      have hpower : (2 ^ k : Int) ≤ 2 ^ 32 := pow_le_pow_right₀ (by decide) (by omega)
      have hpos : (0 : Int) < 2 ^ k := by positivity
      have hfits : Width.w64.Holds (a * 2 ^ k) := by
        obtain ⟨hbelow, habove⟩ := ha
        simp only [Width.bound] at hbelow habove
        constructor <;> simp only [Width.bound] <;> nlinarith
      rw [hfits.bmod_eq] at hkept
      exact hlost hkept
    have hzero := bmod_eq_zero_of_holds_w32 hfar (by omega) hkept
    refine ⟨hfar, ?_, hdvd.1 (bmod_eq_zero_iff.1 hzero)⟩
    rintro rfl
    rw [zero_mul] at hlost
    exact hlost Width.holds_zero
  · rintro ⟨-, hne, hmultiple⟩
    have hzero := bmod_eq_zero_iff.2 (hdvd.2 hmultiple)
    refine ⟨fun hholds => ?_, by rw [hzero]; exact Width.holds_zero⟩
    rw [hholds.bmod_eq] at hzero
    exact hne ((mul_eq_zero.1 hzero).resolve_right (by positivity))

/-- Whether a shift to the left loses bits and does not fail: on 64-bit integers by leaving the range
at all, on 32-bit integers by moving an integer other than zero so far that no bit of it is left in a
word. -/
def LosesSilently : {w : Width} → BoundedInt w → BoundedInt w → Prop
  | .w64, a, s => 0 ≤ s.val ∧ s.val ≤ 63 ∧ ¬ Width.w64.Holds (a.val * 2 ^ s.val.toNat)
  | .w32, a, s =>
    32 < s.val ∧ s.val ≤ 63 ∧ a.val ≠ 0 ∧ (2 ^ (64 - s.val.toNat) : Int) ∣ a.val

/-- Every shift to the left obeys the law but those that lose bits silently. -/
theorem shiftsExactly_iff (a s : BoundedInt w) : ShiftsExactly a s ↔ ¬ LosesSilently a s := by
  rw [shiftsExactly_iff_of_lost]
  cases w with
  | w64 =>
    constructor
    · rintro h ⟨hlow, hhigh, hlost⟩
      exact h ⟨hlow, hhigh⟩ hlost (Width.holds_w64_bmod _)
    · intro h hs hlost
      exact absurd ⟨hs.1, hs.2, hlost⟩ h
  | w32 =>
    constructor
    · rintro h ⟨hfar, hhigh, hne, hmultiple⟩
      have hlost := (lost_silently_iff a.holds_val (k := s.val.toNat) (by omega)).2
        ⟨by omega, hne, hmultiple⟩
      exact h ⟨by omega, hhigh⟩ hlost.1 hlost.2
    · intro h hs hlost hkept
      obtain ⟨hfar, hne, hmultiple⟩ :=
        (lost_silently_iff a.holds_val (k := s.val.toNat) (by omega)).1 ⟨hlost, hkept⟩
      exact h ⟨by omega, hs.2, hne, hmultiple⟩

/-- One, shifted by 63 bits, is the smallest 64-bit integer, and two is zero in either width. -/
theorem not_shiftsExactly_of_one_by_sixtyThree :
    ¬ ShiftsExactly (⟨1, by decide, by decide⟩ : BoundedInt .w64) ⟨63, by decide, by decide⟩ ∧
    InfixOp.shiftLeft.apply (⟨1, by decide, by decide⟩ : BoundedInt .w64) ⟨63, by decide, by decide⟩ =
      .ok ⟨-0x8000000000000000, by decide, by decide⟩ ∧
    ¬ ShiftsExactly (⟨2, by decide, by decide⟩ : BoundedInt .w32) ⟨63, by decide, by decide⟩ ∧
    InfixOp.shiftLeft.apply (⟨2, by decide, by decide⟩ : BoundedInt .w32) ⟨63, by decide, by decide⟩ =
      .ok ⟨0, by decide, by decide⟩ := by
  have hone : InfixOp.shiftLeft.apply (⟨1, by decide, by decide⟩ : BoundedInt .w64)
      ⟨63, by decide, by decide⟩ = .ok ⟨-0x8000000000000000, by decide, by decide⟩ := by decide +kernel
  have htwo : InfixOp.shiftLeft.apply (⟨2, by decide, by decide⟩ : BoundedInt .w32)
      ⟨63, by decide, by decide⟩ = .ok ⟨0, by decide, by decide⟩ := by decide +kernel
  refine ⟨fun h => ?_, hone, fun h => ?_, htwo⟩
  · have hfails := h.overflow (by decide) (by decide)
    rw [hone] at hfails
    cases hfails
  · have hfails := h.overflow (by decide) (by decide)
    rw [htwo] at hfails
    cases hfails

end Formula
