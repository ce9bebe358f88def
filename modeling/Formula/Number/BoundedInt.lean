import Formula.Number
import Formula.Text.Decimal

/-!
# Integers of a fixed width

`BoundedInt w` holds the integers of two's complement words of width `w`.  Every operation is that
of the integers, followed by the one range check `BoundedInt.ofInt?`; the quotient is truncated
toward zero, and a zero divisor has none.
-/

namespace Formula

/-- The width of a machine integer. -/
inductive Width where
  | w32
  | w64
  deriving DecidableEq, Repr

/-- One more than the largest integer of the width, which is also minus the smallest. -/
def Width.bound : Width → Int
  | .w32 => 0x80000000
  | .w64 => 0x8000000000000000

theorem Width.one_lt_bound (w : Width) : 1 < w.bound := by
  cases w <;> decide

/-- An integer that fits into a two's complement word of width `w`. -/
structure BoundedInt (w : Width) where
  val : Int
  neg_bound_le : -w.bound ≤ val
  lt_bound : val < w.bound
  deriving DecidableEq, Repr

namespace BoundedInt

variable {w : Width}

theorem ext {a b : BoundedInt w} (h : a.val = b.val) : a = b := by
  cases a; cases b; cases h; rfl

/-- The integer `n`, if it fits. -/
def ofInt? (n : Int) : Option (BoundedInt w) :=
  if h : -w.bound ≤ n ∧ n < w.bound then some ⟨n, h.1, h.2⟩ else none

theorem ofInt?_eq_some_iff {n : Int} {a : BoundedInt w} : ofInt? n = some a ↔ a.val = n := by
  unfold ofInt?
  constructor
  · intro h
    split at h <;> cases h
    rfl
  · rintro rfl
    rw [dif_pos ⟨a.neg_bound_le, a.lt_bound⟩]

theorem ofInt?_eq_none_iff {n : Int} :
    (ofInt? n : Option (BoundedInt w)) = none ↔ n < -w.bound ∨ w.bound ≤ n := by
  unfold ofInt?
  split <;> simp <;> omega

@[simp]
theorem ofInt?_val (a : BoundedInt w) : ofInt? a.val = some a :=
  ofInt?_eq_some_iff.2 rfl

/-- The integer zero. -/
def zero : BoundedInt w :=
  ⟨0, by have := w.one_lt_bound; omega, by have := w.one_lt_bound; omega⟩

/-- The integer one. -/
def one : BoundedInt w :=
  ⟨1, by have := w.one_lt_bound; omega, w.one_lt_bound⟩

/-- The quotient truncated toward zero. -/
def quotient? (a b : BoundedInt w) : Option (BoundedInt w) :=
  if b.val = 0 then none else ofInt? (a.val.tdiv b.val)

/-- The remainder of the truncated quotient, which exists only where that quotient fits. -/
def remainder? (a b : BoundedInt w) : Option (BoundedInt w) :=
  (quotient? a b).bind fun _ => ofInt? (a.val.tmod b.val)

/-- The integer written before the first dot of a literal, 0 if nothing is. -/
def ofLiteral? (cs : List Char) : Option (BoundedInt w) :=
  if cs.any Char.isDigit then
    match cs.takeWhile (· != '.') with
    | [] => some zero
    | whole => (Decimal.toInt? whole).bind ofInt?
  else none

instance : Number (BoundedInt w) where
  zero := zero
  one := one
  isInteger := true
  ofLiteral? := ofLiteral?
  text a := String.ofList (Decimal.ofInt a.val)
  add? a b := ofInt? (a.val + b.val)
  sub? a b := ofInt? (a.val - b.val)
  mul? a b := ofInt? (a.val * b.val)
  neg? a := ofInt? (-a.val)
  quotient? := quotient?
  remainder? := remainder?
  truncatedQuotient? := quotient?
  fractionalPower? _ _ := none
  compare? a b := some (compare a.val b.val)
  toInt? a := some a.val
  ofInt? := ofInt?
  isSaturated _ := false

end BoundedInt

end Formula
