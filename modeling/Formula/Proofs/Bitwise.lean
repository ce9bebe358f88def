import Formula.Proofs.Word

/-!
# Bitwise operators at the width of their operands

Bitwise operators compute in words of 64 bits whatever the width of their operands is.  All of them
commute with the widening of a word by its sign, so that the result is that of the operation at the
operands' own width (`onWords_eq_ok_ofBits`), and the width always holds it.  A shift to the right
is a division rounded toward minus infinity; only its amount can be refused.
-/

namespace Formula

open BoundedInt

variable {w : Width}

/-- An operation on words that takes two's complements widened by their signs to one that is widened
by its sign. -/
theorem onWords_eq_ok_ofBits (spelling : String)
    {f : BitVec 64 → BitVec 64 → Except Failure (BitVec 64)} {a b : BoundedInt w}
    {v : BitVec w.bits}
    (h : f (a.toBits.signExtend 64) (b.toBits.signExtend 64) = .ok (v.signExtend 64)) :
    onWords spelling f a b = .ok (ofBits v) := by
  rw [signExtend_toBits, signExtend_toBits] at h
  rw [onWords_eq, h]
  exact ofWord_signExtend spelling v

theorem bitAnd_eq_ok (a b : BoundedInt w) :
    InfixOp.bitAnd.apply a b = .ok (ofBits (a.toBits &&& b.toBits)) := by
  apply onWords_eq_ok_ofBits
  rw [BitVec.signExtend_and]

theorem bitOr_eq_ok (a b : BoundedInt w) :
    InfixOp.bitOr.apply a b = .ok (ofBits (a.toBits ||| b.toBits)) := by
  apply onWords_eq_ok_ofBits
  rw [BitVec.signExtend_or]

theorem bitXor_eq_ok (a b : BoundedInt w) :
    InfixOp.bitXor.apply a b = .ok (ofBits (a.toBits ^^^ b.toBits)) := by
  apply onWords_eq_ok_ofBits
  rw [BitVec.signExtend_xor]

theorem bitNot_eq_ok (a : BoundedInt w) :
    PrefixOp.bitNot.apply a = .ok (ofBits (~~~a.toBits)) := by
  rw [PrefixOp.apply, toWord_eq_ok, ← signExtend_toBits]
  show ofWord _ (~~~a.toBits.signExtend 64) = _
  rw [← BitVec.signExtend_not w.bits_pos]
  exact ofWord_signExtend _ _

/-! ## Shifts to the right -/

theorem sshiftRight_signExtend (v : BitVec w.bits) (k : Nat) :
    (v.signExtend 64).sshiftRight k = (v.sshiftRight k).signExtend 64 := by
  apply BitVec.eq_of_toInt_eq
  rw [BitVec.toInt_sshiftRight, BitVec.toInt_signExtend_of_le w.bits_le,
    BitVec.toInt_signExtend_of_le w.bits_le, BitVec.toInt_sshiftRight]

theorem val_ofBits_sshiftRight (a : BoundedInt w) (k : Nat) :
    (ofBits (a.toBits.sshiftRight k)).val = a.val.fdiv (2 ^ k) := by
  have hpower : ((2 ^ k : Nat) : Int) = 2 ^ k := by norm_cast
  show (a.toBits.sshiftRight k).toInt = _
  rw [BitVec.toInt_sshiftRight, toInt_toBits, Int.shiftRight_eq_div_pow, ← hpower,
    Int.fdiv_eq_ediv_of_nonneg _ (Int.natCast_nonneg _)]

theorem shiftAmount_ofInt_val (s : BoundedInt w) :
    shiftAmount (BitVec.ofInt 64 s.val) =
      if 0 ≤ s.val ∧ s.val < 64 then .ok s.val.toNat
      else .error (.outsideDomain (.shiftAmount s.val)) := by
  rw [shiftAmount, toInt_ofInt_val]

theorem shiftRight_eq_ok (a s : BoundedInt w) (hs : 0 ≤ s.val ∧ s.val ≤ 63) :
    InfixOp.shiftRight.apply a s = .ok (ofBits (a.toBits.sshiftRight s.val.toNat)) := by
  apply onWords_eq_ok_ofBits
  rw [shiftRightWord, signExtend_toBits s, shiftAmount_ofInt_val, if_pos ⟨hs.1, by omega⟩,
    ← sshiftRight_signExtend]
  rfl

theorem shiftRight_eq_error (a s : BoundedInt w) (hs : ¬ (0 ≤ s.val ∧ s.val ≤ 63)) :
    InfixOp.shiftRight.apply a s = .error (.outsideDomain (.shiftAmount s.val)) := by
  rw [InfixOp.apply, onWords_eq, shiftRightWord, shiftAmount_ofInt_val, if_neg (by omega)]
  rfl

/-! ## The law -/

/-- Conjunction, disjunction, exclusive disjunction and complement of any integers are those of their
two's complements.  A shift to the right by 0 to 63 bits is the quotient by a power of two, rounded
toward minus infinity; any other amount is outside its domain.  None of them overflows. -/
theorem bitwise_eq_native (a b : BoundedInt w) :
    InfixOp.bitAnd.apply a b = .ok (ofBits (a.toBits &&& b.toBits)) ∧
    InfixOp.bitOr.apply a b = .ok (ofBits (a.toBits ||| b.toBits)) ∧
    InfixOp.bitXor.apply a b = .ok (ofBits (a.toBits ^^^ b.toBits)) ∧
    PrefixOp.bitNot.apply a = .ok (ofBits (~~~a.toBits)) ∧
    (0 ≤ b.val ∧ b.val ≤ 63 →
      ∃ r, InfixOp.shiftRight.apply a b = .ok r ∧ r.val = a.val.fdiv (2 ^ b.val.toNat)) ∧
    (¬ (0 ≤ b.val ∧ b.val ≤ 63) →
      InfixOp.shiftRight.apply a b = .error (.outsideDomain (.shiftAmount b.val))) ∧
    ∀ e, InfixOp.bitAnd.apply a b = .error e ∨ InfixOp.bitOr.apply a b = .error e ∨
        InfixOp.bitXor.apply a b = .error e ∨ PrefixOp.bitNot.apply a = .error e ∨
        InfixOp.shiftRight.apply a b = .error e →
      e.kind ≠ .overflow := by
  refine ⟨bitAnd_eq_ok a b, bitOr_eq_ok a b, bitXor_eq_ok a b, bitNot_eq_ok a, fun hb => ?_,
    shiftRight_eq_error a b, fun e he => ?_⟩
  · exact ⟨_, shiftRight_eq_ok a b hb, val_ofBits_sshiftRight a _⟩
  · rw [bitAnd_eq_ok, bitOr_eq_ok, bitXor_eq_ok, bitNot_eq_ok] at he
    obtain he | he | he | he | he := he
    · cases he
    · cases he
    · cases he
    · cases he
    · by_cases hb : 0 ≤ b.val ∧ b.val ≤ 63
      · rw [shiftRight_eq_ok a b hb] at he
        cases he
      · rw [shiftRight_eq_error a b hb] at he
        cases he
        show FailureKind.outsideDomain ≠ .overflow
        decide

/-- The smallest 32-bit integer combined with 33, shifted by 33 bits, and not shifted by -1. -/
theorem bitwise_eq_native_of_smallest :
    InfixOp.bitXor.apply (⟨-0x80000000, by decide, by decide⟩ : BoundedInt .w32)
        ⟨33, by decide, by decide⟩ = .ok ⟨-0x7fffffdf, by decide, by decide⟩ ∧
    PrefixOp.bitNot.apply (⟨-0x80000000, by decide, by decide⟩ : BoundedInt .w32) =
      .ok ⟨0x7fffffff, by decide, by decide⟩ ∧
    (∃ r, InfixOp.shiftRight.apply (⟨-0x80000000, by decide, by decide⟩ : BoundedInt .w32)
        ⟨33, by decide, by decide⟩ = .ok r ∧ r.val = -1) ∧
    ∃ e, InfixOp.shiftRight.apply (⟨-0x80000000, by decide, by decide⟩ : BoundedInt .w32)
        ⟨-1, by decide, by decide⟩ = .error e ∧
      e = .outsideDomain (.shiftAmount (-1)) ∧ e.kind ≠ .overflow := by
  obtain ⟨-, -, hxor, hnot, hshift, -, -⟩ :=
    bitwise_eq_native (⟨-0x80000000, by decide, by decide⟩ : BoundedInt .w32)
      ⟨33, by decide, by decide⟩
  obtain ⟨-, -, -, -, -, hrefused, hnever⟩ :=
    bitwise_eq_native (⟨-0x80000000, by decide, by decide⟩ : BoundedInt .w32)
      ⟨-1, by decide, by decide⟩
  have herror := hrefused (by decide)
  have hkind := hnever _ (.inr (.inr (.inr (.inr herror))))
  exact ⟨hxor, hnot, hshift (by decide), _, herror, rfl, hkind⟩

end Formula
