import Formula.Failure
import Formula.Number
import Formula.Operator

/-!
# Bitwise operators

The operands are turned into signed 64-bit words, the operation is done there, and the signed value
of the resulting word is turned back.  Shifted-out bits are dropped; a shift to the right keeps the
sign.
-/

namespace Formula

variable {α : Type} [Number α]

open Number

/-- The 64-bit word of an integral operand. -/
def toWord (spelling : String) (a : α) : Except Failure (BitVec 64) :=
  if isIntegral a then
    match toInt64? a with
    | some n => .ok (BitVec.ofInt 64 n)
    | none => .error (.overflow spelling)
  else .error (.outsideDomain (.notIntegral spelling (text a)))

/-- The value nearest to the signed value of a word. -/
def ofWord (spelling : String) (word : BitVec 64) : Except Failure α :=
  match ofInt? word.toInt with
  | some a => .ok a
  | none => .error (.overflow spelling)

/-- The number of bits to shift by, which is less than the width of a word. -/
def shiftAmount (word : BitVec 64) : Except Failure Nat :=
  if 0 ≤ word.toInt ∧ word.toInt < 64 then .ok word.toInt.toNat
  else .error (.outsideDomain (.shiftAmount word.toInt))

/-- A binary operation on words, applied to two operands. -/
def onWords (spelling : String) (f : BitVec 64 → BitVec 64 → Except Failure (BitVec 64))
    (a b : α) : Except Failure α := do
  let v ← toWord spelling a
  let w ← toWord spelling b
  ofWord spelling (← f v w)

/-- `a` shifted to the left, its high bits dropped. -/
def shiftLeftWord (a amount : BitVec 64) : Except Failure (BitVec 64) :=
  return a <<< (← shiftAmount amount)

/-- `a` shifted to the right, filled with its sign. -/
def shiftRightWord (a amount : BitVec 64) : Except Failure (BitVec 64) :=
  return a.sshiftRight (← shiftAmount amount)

end Formula
