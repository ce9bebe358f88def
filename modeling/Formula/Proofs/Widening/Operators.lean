import Formula.Operator.Apply
import Formula.Proofs.Widening.Basic

/-!
# Operators in a wider number type

Every operator follows: powers and factorials because each of their multiplications does, bitwise
operators because both types take them to the same 64-bit words.
-/

namespace Formula

variable {α β : Type} [Number α] [Number β] {f : α → β}

open Number

theorem isAvoidable_overflow (spelling : String) : (Failure.overflow spelling).IsAvoidable :=
  .inl rfl

namespace PartialFactorial

/-- The same place of the loop in another number type. -/
def map (f : α → β) (s : PartialFactorial α) : PartialFactorial β :=
  ⟨f s.counter, f s.product⟩

/-- The same outcome in another number type. -/
def Outcome.map (f : α → β) : Outcome α → Outcome β
  | more s => more (s.map f)
  | done product => done (f product)
  | overflow => overflow

end PartialFactorial

namespace Widening

variable (hf : Widening f)
include hf

/-! ## Bitwise operators -/

theorem toWord_map (spelling : String) (a : α) : toWord spelling (f a) = toWord spelling a := by
  rw [toWord, toWord, hf.isIntegral_map, hf.toInt64?_map, hf.text_map]

theorem follows_ofWord (spelling : String) (word : BitVec 64) :
    Follows f (ofWord spelling word) (ofWord spelling word) :=
  (isAvoidable_overflow spelling).follows _ _ (hf.ofInt? word.toInt)

theorem follows_onWords (spelling : String)
    (k : BitVec 64 → BitVec 64 → Except Failure (BitVec 64)) (a b : α) :
    Follows f (onWords spelling k a b) (onWords spelling k (f a) (f b)) := by
  rw [onWords, onWords, hf.toWord_map, hf.toWord_map]
  exact (follows_refl _).bind fun v => (follows_refl _).bind fun w =>
    (follows_refl _).bind fun word => hf.follows_ofWord spelling word

/-! ## Powers -/

theorem carries_timesPower? (product factor : α) (exponent : Nat) :
    Carries f (timesPower? product factor exponent)
      (timesPower? (f product) (f factor) exponent) := by
  induction exponent using Nat.strongRecOn generalizing product factor with
  | ind exponent ih =>
    rw [timesPower?, timesPower?]
    split
    · exact carries_some product
    · have hrest : ∀ product, Carries f
          (if exponent / 2 = 0 then some product
            else Number.mul? factor factor >>= fun square =>
              timesPower? product square (exponent / 2))
          (if exponent / 2 = 0 then some (f product)
            else Number.mul? (f factor) (f factor) >>= fun square =>
              timesPower? (f product) square (exponent / 2)) := fun product => by
        split
        · exact carries_some product
        · exact (hf.mul? factor factor).bind fun square => ih _ (by omega) product square
      dsimp only
      split
      · exact (hf.mul? product factor).bind hrest
      · exact (carries_some product).bind hrest

theorem follows_reciprocalPower (base : α) (exponent : Nat) :
    Follows f (reciprocalPower base exponent) (reciprocalPower (f base) exponent) := by
  rw [reciprocalPower, reciprocalPower, hf.isZero_map, hf.toInt?_map, ← hf.map_one, ← hf.map_zero]
  split
  · exact .error _
  split
  · exact .ok one
  · split
    · exact .ok one
    · exact .ok base
  · exact .ok zero

theorem follows_reciprocal (power : α) : Follows f (reciprocal power) (reciprocal (f power)) := by
  rw [reciprocal, reciprocal, hf.isZero_map, ← hf.map_one]
  split
  · exact .error _
  · exact (isAvoidable_overflow _).follows _ _ (hf.quotient? one power)

theorem follows_integralPower (base : α) (exponent : Int) :
    Follows f (integralPower base exponent) (integralPower (f base) exponent) := by
  have hpower := hf.carries_timesPower? one base exponent.natAbs
  rw [hf.map_one] at hpower
  rw [integralPower, integralPower, hf.isInteger_eq]
  split
  · exact hf.follows_reciprocalPower base _
  · cases h : timesPower? one base exponent.natAbs with
    | none => exact .avoidable (isAvoidable_overflow _) _
    | some magnitude =>
      rw [hpower magnitude h]
      dsimp only
      split
      · exact hf.follows_reciprocal magnitude
      · exact .ok magnitude

theorem follows_power (base exponent : α) :
    Follows f (power base exponent) (power (f base) (f exponent)) := by
  rw [power, power, hf.isIntegral_map, hf.toInt64?_map, hf.fractionalPower?_map, hf.text_map]
  split
  · split
    · exact hf.follows_integralPower base _
    · cases fractionalPower? base exponent with
      | none => exact .error _
      | some a => exact .ok a
  · cases fractionalPower? base exponent with
    | none => exact .error _
    | some a => exact .ok a

/-! ## Factorials -/

theorem next_map (value : α) (s : PartialFactorial α) (h : s.next value ≠ .overflow) :
    (s.map f).next (f value) = (s.next value).map f := by
  unfold PartialFactorial.next at h ⊢
  rw [PartialFactorial.map, hf.less_map, ← hf.map_one]
  split
  · rename_i hless
    rw [if_pos hless] at h
    cases hcounter : Number.add? s.counter one with
    | none => exact absurd (by rw [hcounter]) h
    | some counter =>
      rw [hf.add? _ _ counter hcounter]
      dsimp only
      cases hproduct : Number.mul? s.product counter with
      | none => exact absurd (by simp only [hcounter, hproduct]) h
      | some product =>
        rw [hf.mul? _ _ product hproduct]
        dsimp only
        rw [hf.isSaturated_map]
        split <;> rfl
  · rfl

theorem carries_run (value : α) (rounds : Nat) (s : PartialFactorial α) :
    Carries f (s.run value rounds) ((s.map f).run (f value) rounds) := by
  induction rounds generalizing s with
  | zero => exact carries_some s.product
  | succ rounds ih =>
    rw [PartialFactorial.run, PartialFactorial.run]
    have hnext := hf.next_map value s
    cases h : s.next value with
    | overflow => exact carries_none _
    | more s' =>
      rw [hnext (by simp [h]), h]
      exact ih s'
    | done product =>
      rw [hnext (by simp [h]), h]
      exact carries_some product

theorem follows_factorial (value : α) : Follows f (factorial value) (factorial (f value)) := by
  rw [factorial, factorial, hf.isNegative_map, hf.toInt?_map, hf.text_map]
  split
  · rename_i n _ _
    have hrun := hf.carries_run value n.toNat .start
    rw [PartialFactorial.map, PartialFactorial.start, hf.map_one] at hrun
    exact (isAvoidable_overflow _).follows _ _ hrun
  · exact .error _

/-! ## All operators -/

theorem follows_divided (op : InfixOp) {k : α → α → Option α} {l : β → β → Option β}
    (h : ∀ a b, Carries f (k a b) (l (f a) (f b))) (lhs rhs : α) :
    Follows f (op.divided k lhs rhs) (op.divided l (f lhs) (f rhs)) := by
  rw [InfixOp.divided, InfixOp.divided, hf.isZero_map]
  split
  · exact .error _
  · exact (isAvoidable_overflow _).follows _ _ (h lhs rhs)

theorem follows_ofBool (b : Bool) : Follows f (.ok (ofBool b)) (.ok (ofBool b)) := by
  rw [← hf.map_ofBool]
  exact .ok _

theorem follows_infixApply (op : InfixOp) (lhs rhs : α) :
    Follows f (op.apply lhs rhs) (op.apply (f lhs) (f rhs)) := by
  have hchecked : ∀ {x : Option α} {y : Option β}, Carries f x y →
      Follows f (op.checked x) (op.checked y) := (isAvoidable_overflow op.spelling).follows _ _
  cases op with
  | add => exact hchecked (hf.add? lhs rhs)
  | subtract => exact hchecked (hf.sub? lhs rhs)
  | multiply => exact hchecked (hf.mul? lhs rhs)
  | divide => exact hf.follows_divided _ hf.quotient? lhs rhs
  | remainder => exact hf.follows_divided _ hf.remainder? lhs rhs
  | truncatedDivide => exact hf.follows_divided _ hf.truncatedQuotient? lhs rhs
  | power => exact hf.follows_power lhs rhs
  | equal | notEqual =>
    rw [InfixOp.apply, InfixOp.apply, hf.equal_map]
    exact hf.follows_ofBool _
  | less | greater =>
    rw [InfixOp.apply, InfixOp.apply, hf.less_map]
    exact hf.follows_ofBool _
  | lessEqual | greaterEqual =>
    rw [InfixOp.apply, InfixOp.apply, hf.lessEqual_map]
    exact hf.follows_ofBool _
  | threeWay =>
    rw [InfixOp.apply, InfixOp.apply, hf.compare?_map, hf.text_map, hf.text_map, ← hf.map_one,
      ← hf.map_zero]
    split
    · exact hchecked (hf.neg? one)
    · exact .ok zero
    · exact .ok one
    · exact .error _
  | and | or | xor =>
    rw [InfixOp.apply, InfixOp.apply, hf.isTruthy_map, hf.isTruthy_map]
    exact hf.follows_ofBool _
  | bitAnd | bitOr | bitXor | shiftLeft | shiftRight => exact hf.follows_onWords _ _ lhs rhs

theorem follows_prefixApply (op : PrefixOp) (a : α) :
    Follows f (op.apply a) (op.apply (f a)) := by
  cases op with
  | negate => exact (isAvoidable_overflow _).follows _ _ (hf.neg? a)
  | not =>
    rw [PrefixOp.apply, PrefixOp.apply, hf.isTruthy_map]
    exact hf.follows_ofBool _
  | bitNot =>
    rw [PrefixOp.apply, PrefixOp.apply, hf.toWord_map]
    exact (follows_refl _).bind fun word => hf.follows_ofWord _ _

theorem follows_postfixApply (op : PostfixOp) (a : α) :
    Follows f (op.apply a) (op.apply (f a)) := by
  cases op with
  | factorial => exact hf.follows_factorial a

end Widening

end Formula
