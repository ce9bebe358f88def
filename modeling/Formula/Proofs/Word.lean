import Mathlib.Algebra.Order.Ring.Abs
import Formula.Operator.Apply
import Formula.Proofs.Width

/-!
# Integers as words

Bitwise operators compute in signed words of 64 bits.  Every integer of every width has such a word
(`toWord_eq_ok`), which is its two's complement at its own width with the sign repeated in front
(`signExtend_toBits`).  Words of this kind are the ones that turn back into integers
(`ofWord_signExtend`).
-/

namespace Formula

variable {w : Width}

/-! ## Two's complement -/

namespace Width

/-- The number of bits of a width. -/
def bits : Width → Nat
  | w32 => 32
  | w64 => 64

theorem bits_pos (w : Width) : 0 < w.bits := by
  cases w <;> decide

theorem bits_le (w : Width) : w.bits ≤ 64 := by
  cases w <;> decide

theorem bound_eq_two_pow (w : Width) : w.bound = 2 ^ (w.bits - 1) := by
  cases w <;> rfl

theorem holds_toInt (v : BitVec w.bits) : w.Holds v.toInt := by
  rw [Holds, w.bound_eq_two_pow]
  exact ⟨v.le_toInt, v.toInt_lt⟩

/-- A word keeps every integer that some width can hold. -/
theorem Holds.bmod_eq {n : Int} (h : w.Holds n) : n.bmod (2 ^ 64) = n := by
  obtain ⟨hbelow, habove⟩ := h.holds_w64
  simp only [Width.bound] at hbelow habove
  apply Int.bmod_eq_of_le <;> omega

end Width

namespace BoundedInt

/-- The two's complement of an integer. -/
def toBits (a : BoundedInt w) : BitVec w.bits :=
  BitVec.ofInt w.bits a.val

/-- The integer with the two's complement `v`. -/
def ofBits (v : BitVec w.bits) : BoundedInt w :=
  ⟨v.toInt, (Width.holds_toInt v).1, (Width.holds_toInt v).2⟩

@[simp]
theorem toInt_toBits (a : BoundedInt w) : a.toBits.toInt = a.val := by
  have hbelow := a.neg_bound_le
  have habove := a.lt_bound
  rw [toBits, BitVec.toInt_ofInt]
  cases w <;> simp only [Width.bound, Width.bits] at hbelow habove ⊢ <;>
    exact Int.bmod_eq_of_le (by omega) (by omega)

theorem signExtend_toBits (a : BoundedInt w) : a.toBits.signExtend 64 = BitVec.ofInt 64 a.val := by
  rw [BitVec.signExtend, toInt_toBits]

end BoundedInt

open BoundedInt

/-! ## Words of 64 bits -/

theorem toInt_ofInt_val (a : BoundedInt w) : (BitVec.ofInt 64 a.val).toInt = a.val := by
  rw [BitVec.toInt_ofInt, a.holds_val.bmod_eq]

theorem toWord_eq_ok (spelling : String) (a : BoundedInt w) :
    toWord spelling a = .ok (BitVec.ofInt 64 a.val) := by
  have hintegral : Number.isIntegral a = true := rfl
  rw [toWord, if_pos hintegral, toInt64?_eq]

theorem onWords_eq (spelling : String)
    (f : BitVec 64 → BitVec 64 → Except Failure (BitVec 64)) (a b : BoundedInt w) :
    onWords spelling f a b =
      (f (BitVec.ofInt 64 a.val) (BitVec.ofInt 64 b.val) >>= ofWord spelling) := by
  rw [onWords, toWord_eq_ok, toWord_eq_ok]
  rfl

/-- A two's complement that was widened loses nothing when it is narrowed again. -/
theorem ofWord_signExtend (spelling : String) (v : BitVec w.bits) :
    ofWord spelling (v.signExtend 64) = .ok (ofBits v) := by
  have hkept : Number.ofInt? v.toInt = some (ofBits v) := ofInt?_of_holds (Width.holds_toInt v)
  rw [ofWord, BitVec.toInt_signExtend_of_le w.bits_le, hkept]

end Formula
