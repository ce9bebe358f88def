import Formula.Number.BoundedInt

/-!
# The integers of a width

`Width.Holds w n` says that a two's complement word of width `w` can hold the integer `n`, which is
what the range check `BoundedInt.ofInt?` decides.  Loops of checked operations rest on two properties
of the range.  What holds a positive multiple of a number holds the number (`Width.Holds.of_mul`),
also where the multiple is the smallest integer, whose opposite is not held; and the bound is no
square (`Width.mul_self_ne_bound`).
-/

namespace Formula

/-- Whether a two's complement word of width `w` can hold `n`. -/
def Width.Holds (w : Width) (n : Int) : Prop :=
  -w.bound ≤ n ∧ n < w.bound

instance (w : Width) (n : Int) : Decidable (w.Holds n) :=
  inferInstanceAs (Decidable (_ ∧ _))

namespace Width

variable {w : Width} {n k : Int}

/-- What fits into any width fits into the larger one. -/
theorem Holds.holds_w64 (h : w.Holds n) : Width.w64.Holds n := by
  obtain ⟨hbelow, habove⟩ := h
  cases w <;> simp only [Holds, bound] at hbelow habove ⊢ <;> omega

theorem Holds.natAbs_le (h : w.Holds n) : (n.natAbs : Int) ≤ w.bound := by
  have hbelow := h.1
  have habove := h.2
  omega

theorem holds_zero : w.Holds 0 := by
  have hbound := w.one_lt_bound
  constructor <;> omega

/-- What a positive multiple of a number fits into, the number fits into. -/
theorem Holds.of_mul (h : w.Holds (n * k)) (hk : 1 ≤ k) : w.Holds n := by
  obtain ⟨hbelow, habove⟩ := h
  rcases Int.le_total 0 n with hn | hn
  · have hle : n * 1 ≤ n * k := Int.mul_le_mul_of_nonneg_left hk hn
    have hbound := w.one_lt_bound
    constructor <;> omega
  · have hle : n * k ≤ n * 1 := Int.mul_le_mul_of_nonpos_left hn hk
    have hbound := w.one_lt_bound
    constructor <;> omega

theorem mul_self_ne_of_between {r b : Nat} (hbelow : r * r < b) (habove : b < (r + 1) * (r + 1))
    (n : Int) : n * n ≠ b := by
  intro h
  have habs : n.natAbs * n.natAbs = b := by
    have hmul : (n.natAbs : Int) * n.natAbs = n * n := Int.natAbs_mul_self' n
    rw [h] at hmul
    exact_mod_cast hmul
  by_cases hr : n.natAbs ≤ r
  · have := Nat.mul_le_mul hr hr
    omega
  · have hr' : r + 1 ≤ n.natAbs := by omega
    have := Nat.mul_le_mul hr' hr'
    omega

/-- The bound of a width is an odd power of two. -/
theorem mul_self_ne_bound (w : Width) (n : Int) : n * n ≠ w.bound := by
  cases w with
  | w32 => exact mul_self_ne_of_between (r := 46340) (by decide) (by decide) n
  | w64 => exact mul_self_ne_of_between (r := 3037000499) (by decide) (by decide) n

end Width

theorem Number.toInt64?_eq_ite {α : Type} [Number α] {a : α} {n : Int}
    (h : Number.toInt? a = some n) :
    Number.toInt64? a = if Width.w64.Holds n then some n else none := by
  rw [Number.toInt64?, h]
  by_cases hn : Width.w64.Holds n
  · rw [if_pos hn]
    exact Option.filter_eq_some_iff.2 ⟨rfl, by simpa [Width.Holds, Width.bound] using hn⟩
  · rw [if_neg hn, Option.filter_eq_none_iff]
    rintro m ⟨⟩
    simpa [Width.Holds, Width.bound] using hn

namespace BoundedInt

variable {w : Width} {n : Int}

theorem holds_val (a : BoundedInt w) : w.Holds a.val :=
  ⟨a.neg_bound_le, a.lt_bound⟩

theorem ofInt?_of_holds (h : w.Holds n) : ofInt? n = some (⟨n, h.1, h.2⟩ : BoundedInt w) :=
  ofInt?_eq_some_iff.2 rfl

theorem ofInt?_eq_none_iff_not_holds :
    (ofInt? n : Option (BoundedInt w)) = none ↔ ¬ w.Holds n := by
  rw [ofInt?_eq_none_iff, Width.Holds]
  omega

theorem isZero_iff {a : BoundedInt w} : Number.isZero a = true ↔ a.val = 0 :=
  beq_iff_eq.trans (Option.some_inj.trans Int.compare_eq_eq)

theorem isNegative_iff {a : BoundedInt w} : Number.isNegative a = true ↔ a.val < 0 :=
  beq_iff_eq.trans (Option.some_inj.trans Int.compare_eq_lt)

theorem less_iff {a b : BoundedInt w} : Number.less a b = true ↔ a.val < b.val :=
  beq_iff_eq.trans (Option.some_inj.trans Int.compare_eq_lt)

theorem toInt64?_eq (a : BoundedInt w) : Number.toInt64? a = some a.val := by
  have hinteger : Number.toInt? a = some a.val := rfl
  rw [Number.toInt64?_eq_ite hinteger, if_pos a.holds_val.holds_w64]

end BoundedInt

end Formula
